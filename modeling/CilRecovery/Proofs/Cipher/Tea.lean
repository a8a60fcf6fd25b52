import CilRecovery.Cipher.Tea

/-!
# XTEA and XXTEA are inverted exactly

Both ciphers are rounds with a running sum, and decryption makes the rounds backwards from the
sum that encryption ends with. It is enough that one round undoes the other with the same sum:
in XTEA the halves of a round do so one after the other, in XXTEA the words of the block do.
-/

set_option autoImplicit false

namespace CilRecovery

/-! ## Rounds with a running sum -/

namespace Tea

variable {α : Type}

/-- Rounds one after the other, each with the sum before it. -/
def forward (round : UInt32 → α → α) : (count : Nat) → (sum : UInt32) → α → α
  | 0, _, block => block
  | count + 1, sum, block => forward round count (sum + teaDelta) (round sum block)

/-- Rounds from the last to the first, each with the sum before it. The sum after the last one
is given. -/
def backward (round : UInt32 → α → α) : (count : Nat) → (sum : UInt32) → α → α
  | 0, _, block => block
  | count + 1, sum, block =>
      backward round count (sum - teaDelta) (round (sum - teaDelta) block)

def sumAfter (count : Nat) (sum : UInt32) : UInt32 := sum + UInt32.ofNat count * teaDelta

theorem sumAfter_zero (sum : UInt32) : sumAfter 0 sum = sum := by
  change sum + 0 * teaDelta = sum
  rw [UInt32.zero_mul, UInt32.add_zero]

theorem sumAfter_succ (count : Nat) (sum : UInt32) :
    sumAfter (count + 1) sum = sumAfter count sum + teaDelta := by
  have grown : UInt32.ofNat (count + 1) = UInt32.ofNat count + 1 := UInt32.ofNat_add count 1
  rw [sumAfter, sumAfter, grown, UInt32.add_mul, UInt32.one_mul, UInt32.add_assoc]

theorem sumAfter_add_delta (count : Nat) (sum : UInt32) :
    sumAfter count (sum + teaDelta) = sumAfter (count + 1) sum := by
  rw [sumAfter_succ, sumAfter, sumAfter]
  ac_rfl

/-- On blocks of one kind, which both rounds keep, one undoes the other with the same sum. -/
structure Undoes (valid : α → Prop) (undo round : UInt32 → α → α) : Prop where
  kept : ∀ sum block, valid block → valid (round sum block)
  undone : ∀ sum block, valid block → undo sum (round sum block) = block

variable {valid : α → Prop} {undo round : UInt32 → α → α}

theorem forward_valid (kept : ∀ sum block, valid block → valid (round sum block)) {block : α}
    (fits : valid block) (count : Nat) (sum : UInt32) : valid (forward round count sum block) := by
  induction count generalizing sum block with
  | zero => exact fits
  | succ count ih => exact ih (kept sum block fits) (sum + teaDelta)

theorem backward_valid (kept : ∀ sum block, valid block → valid (round sum block)) {block : α}
    (fits : valid block) (count : Nat) (sum : UInt32) :
    valid (backward round count sum block) := by
  induction count generalizing sum block with
  | zero => exact fits
  | succ count ih => exact ih (kept (sum - teaDelta) block fits) (sum - teaDelta)

/-- The round that is made last backwards is the first one forwards. -/
theorem backward_succ (count : Nat) (sum : UInt32) (block : α) :
    backward undo (count + 1) (sumAfter (count + 1) sum) block =
      undo sum (backward undo count (sumAfter (count + 1) sum) block) := by
  induction count generalizing block with
  | zero =>
      have start : sumAfter 1 sum - teaDelta = sum := by
        rw [sumAfter_succ, sumAfter_zero, UInt32.add_sub_cancel]
      simp only [backward, Nat.zero_add, start]
  | succ count ih =>
      have step : sumAfter (count + 1 + 1) sum - teaDelta = sumAfter (count + 1) sum := by
        rw [sumAfter_succ, UInt32.add_sub_cancel]
      rw [backward, step, ih, backward, step]

/-- Rounds undo each other if single rounds do. The sum is the invariant: it comes back to each
round as that round saw it. -/
theorem backward_forward (undoes : Undoes valid undo round) {block : α} (fits : valid block)
    (count : Nat) (sum : UInt32) :
    backward undo count (sumAfter count sum) (forward round count sum block) = block := by
  induction count generalizing sum block with
  | zero => rfl
  | succ count ih =>
      have later := ih (undoes.kept sum block fits) (sum + teaDelta)
      rw [sumAfter_add_delta] at later
      rw [backward_succ, forward, later, undoes.undone sum block fits]

theorem forward_backward (undoes : Undoes valid round undo) {block : α} (fits : valid block)
    (count : Nat) (sum : UInt32) :
    forward round count sum (backward undo count (sumAfter count sum) block) = block := by
  induction count generalizing sum with
  | zero => rfl
  | succ count ih =>
      have later := ih (sum + teaDelta)
      rw [sumAfter_add_delta] at later
      have reached := backward_valid undoes.kept fits count (sumAfter (count + 1) sum)
      rw [backward_succ, forward, undoes.undone sum _ reached, later]

end Tea

/-! ## Pairs -/

namespace Xtea

def encryptRound (key : TeaKey) (sum : UInt32) (pair : UInt32 × UInt32) : UInt32 × UInt32 :=
  let first := pair.1 + (mix pair.2 ^^^ (sum + key.word sum))
  let after := sum + teaDelta
  (first, pair.2 + (mix first ^^^ (after + key.word (after >>> 11))))

def decryptRound (key : TeaKey) (sum : UInt32) (pair : UInt32 × UInt32) : UInt32 × UInt32 :=
  let after := sum + teaDelta
  let second := pair.2 - (mix pair.1 ^^^ (after + key.word (after >>> 11)))
  (pair.1 - (mix second ^^^ (sum + key.word sum)), second)

theorem encryptFrom_eq (key : TeaKey) (rounds : Nat) (sum : UInt32) (pair : UInt32 × UInt32) :
    encryptFrom key rounds sum pair = Tea.forward (encryptRound key) rounds sum pair := by
  induction rounds generalizing sum pair with
  | zero => rfl
  | succ rounds ih => exact ih (sum + teaDelta) (encryptRound key sum pair)

theorem decryptFrom_eq (key : TeaKey) (rounds : Nat) (sum : UInt32) (pair : UInt32 × UInt32) :
    decryptFrom key rounds sum pair = Tea.backward (decryptRound key) rounds sum pair := by
  induction rounds generalizing sum pair with
  | zero => rfl
  | succ rounds ih =>
      rw [decryptFrom, ih, Tea.backward, decryptRound, UInt32.sub_add_cancel]

/-- Each half of a round adds what depends on the other half only, which is the same in both
directions. -/
theorem decryptRound_undoes (key : TeaKey) :
    Tea.Undoes (fun _ => True) (decryptRound key) (encryptRound key) where
  kept _ _ _ := trivial
  undone sum pair _ := by
    simp only [decryptRound, encryptRound, UInt32.add_sub_cancel]

theorem encryptRound_undoes (key : TeaKey) :
    Tea.Undoes (fun _ => True) (encryptRound key) (decryptRound key) where
  kept _ _ _ := trivial
  undone sum pair _ := by
    simp only [decryptRound, encryptRound, UInt32.sub_add_cancel]

/-- For every key and every number of rounds, each direction undoes the other. -/
theorem inverse_on_pairs (key : TeaKey) (rounds : UInt32) (pair : UInt32 × UInt32) :
    decrypt key rounds (encrypt key rounds pair) = pair ∧
      encrypt key rounds (decrypt key rounds pair) = pair := by
  have final : teaDelta * rounds = Tea.sumAfter rounds.toNat 0 := by
    rw [Tea.sumAfter, UInt32.ofNat_toNat, UInt32.zero_add, UInt32.mul_comm]
  simp only [encrypt, decrypt, encryptFrom_eq, decryptFrom_eq, final]
  exact ⟨Tea.backward_forward (decryptRound_undoes key) trivial rounds.toNat 0,
    Tea.forward_backward (encryptRound_undoes key) trivial rounds.toNat 0⟩

end Xtea

/-! ## Blocks -/

namespace Xxtea

variable (key : TeaKey) (sum wrap : UInt32)

theorem encryptTail_cons (index : Nat) (before word : UInt32) (rest : List UInt32) :
    encryptTail key sum wrap index before (word :: rest) =
      (word + mix key sum index before (rest.headD wrap)) ::
        encryptTail key sum wrap (index + 1)
          (word + mix key sum index before (rest.headD wrap)) rest := by
  cases rest with
  | nil => rfl
  | cons after rest => rfl

@[simp] theorem length_encryptTail (index : Nat) (before : UInt32) (words : List UInt32) :
    (encryptTail key sum wrap index before words).length = words.length := by
  induction words generalizing index before with
  | nil => rfl
  | cons word rest ih => rw [encryptTail_cons, List.length_cons, ih, List.length_cons]

@[simp] theorem length_decryptTail (index : Nat) (before : UInt32) (words : List UInt32) :
    (decryptTail key sum wrap index before words).length = words.length := by
  induction words generalizing index before with
  | nil => rfl
  | cons word rest ih => rw [decryptTail, List.length_cons, ih, List.length_cons]

/-- The word before is new in both directions. The words behind are restored first, so the word
after is old in both directions. -/
theorem decryptTail_encryptTail (index : Nat) (before : UInt32) (words : List UInt32) :
    decryptTail key sum wrap index before (encryptTail key sum wrap index before words) =
      words := by
  induction words generalizing index before with
  | nil => rfl
  | cons word rest ih => rw [encryptTail_cons, decryptTail, ih, UInt32.add_sub_cancel]

/-- Both directions change a word by the same two neighbours, so the induction is on the words. -/
theorem encryptTail_decryptTail (index : Nat) (before : UInt32) (words : List UInt32) :
    encryptTail key sum wrap index before (decryptTail key sum wrap index before words) =
      words := by
  induction words generalizing index before with
  | nil => rfl
  | cons word rest ih => rw [decryptTail, encryptTail_cons, UInt32.sub_add_cancel, ih]

@[simp] theorem length_encryptRound (block : List UInt32) :
    (encryptRound key sum block).length = block.length := by
  cases block with
  | nil => rfl
  | cons first rest =>
      cases rest with
      | nil => rfl
      | cons after rest => simp [encryptRound]

@[simp] theorem length_decryptRound (block : List UInt32) :
    (decryptRound key sum block).length = block.length := by
  cases block with
  | nil => rfl
  | cons first rest => simp [decryptRound]

theorem decryptRound_encryptRound {block : List UInt32} (two : 2 ≤ block.length) :
    decryptRound key sum (encryptRound key sum block) = block := by
  match block with
  | first :: after :: rest =>
      simp only [encryptRound, decryptRound, decryptTail_encryptTail, List.getLastD_cons,
        List.headD_cons, UInt32.add_sub_cancel]

theorem encryptRound_decryptRound {block : List UInt32} (two : 2 ≤ block.length) :
    encryptRound key sum (decryptRound key sum block) = block := by
  match block with
  | first :: second :: rest =>
      have restored := encryptTail_decryptTail key sum first 1 first (second :: rest)
      rw [decryptRound]
      rw [decryptTail] at restored ⊢
      simp only [encryptRound, List.getLastD_cons, List.headD_cons, UInt32.sub_add_cancel, restored]

/-! The rounds of a block of one size, the sum being the one before it grows. -/

theorem decryptRound_undoes {size : Nat} (two : 2 ≤ size) :
    Tea.Undoes (fun block => block.length = size) (fun sum => decryptRound key (sum + teaDelta))
      (fun sum => encryptRound key (sum + teaDelta)) where
  kept sum block length := (length_encryptRound key (sum + teaDelta) block).trans length
  undone sum _ length := decryptRound_encryptRound key (sum + teaDelta) (length ▸ two)

theorem encryptRound_undoes {size : Nat} (two : 2 ≤ size) :
    Tea.Undoes (fun block => block.length = size) (fun sum => encryptRound key (sum + teaDelta))
      (fun sum => decryptRound key (sum + teaDelta)) where
  kept sum block length := (length_decryptRound key (sum + teaDelta) block).trans length
  undone sum _ length := encryptRound_decryptRound key (sum + teaDelta) (length ▸ two)

theorem encryptFrom_eq (rounds : Nat) (block : List UInt32) :
    encryptFrom key rounds sum block =
      Tea.forward (fun sum => encryptRound key (sum + teaDelta)) rounds sum block := by
  induction rounds generalizing sum block with
  | zero => rfl
  | succ rounds ih => exact ih (sum + teaDelta) (encryptRound key (sum + teaDelta) block)

theorem decryptFrom_eq (rounds : Nat) (block : List UInt32) :
    decryptFrom key rounds sum block =
      Tea.backward (fun sum => decryptRound key (sum + teaDelta)) rounds sum block := by
  induction rounds generalizing sum block with
  | zero => rfl
  | succ rounds ih => rw [decryptFrom, ih, Tea.backward, UInt32.sub_add_cancel]

theorem encrypt_eq {block : List UInt32} (two : 2 ≤ block.length) :
    encrypt key block =
      Tea.forward (fun sum => encryptRound key (sum + teaDelta)) (roundCount block.length) 0
        block := by
  rw [encrypt, if_neg (Nat.not_lt.mpr two), encryptFrom_eq]

theorem decrypt_eq {block : List UInt32} (two : 2 ≤ block.length) :
    decrypt key block =
      Tea.backward (fun sum => decryptRound key (sum + teaDelta)) (roundCount block.length)
        (Tea.sumAfter (roundCount block.length) 0) block := by
  have nonempty : block.isEmpty = false := by
    rw [List.isEmpty_eq_false_iff, ← List.length_pos_iff]
    omega
  rw [decrypt, nonempty, if_neg Bool.false_ne_true, decryptFrom_eq, Tea.sumAfter, UInt32.zero_add]

theorem length_encrypt {block : List UInt32} (two : 2 ≤ block.length) :
    (encrypt key block).length = block.length := by
  rw [encrypt_eq key two]
  exact Tea.forward_valid (decryptRound_undoes key two).kept rfl _ 0

theorem length_decrypt {block : List UInt32} (two : 2 ≤ block.length) :
    (decrypt key block).length = block.length := by
  rw [decrypt_eq key two]
  exact Tea.backward_valid (encryptRound_undoes key two).kept rfl _ _

/-- For every key, each direction undoes the other on blocks of two words or more. -/
theorem inverse_on_blocks {block : List UInt32} (two : 2 ≤ block.length) :
    decrypt key (encrypt key block) = block ∧ encrypt key (decrypt key block) = block := by
  have encrypted := length_encrypt key two
  have decrypted := length_decrypt key two
  constructor
  · rw [decrypt_eq key (encrypted ▸ two), encrypted, encrypt_eq key two]
    exact Tea.backward_forward (decryptRound_undoes key two) rfl _ 0
  · rw [encrypt_eq key (decrypted ▸ two), decrypted, decrypt_eq key two]
    exact Tea.forward_backward (encryptRound_undoes key two) rfl _ 0

/-- Sixteen rounds over five words. -/
theorem inverse_on_blocks_five :
    let key : TeaKey := ⟨0x00010203, 0x04050607, 0x08090A0B, 0x0C0D0E0F⟩
    let plain : List UInt32 := [0x01234567, 0x89ABCDEF, 0xDEADBEEF, 0x0BADF00D, 0x13579BDF]
    let mixed : List UInt32 := [0x49888985, 0xA8EF8396, 0x368A448D, 0xE4BB3B41, 0x054D5D7F]
    encrypt key plain = mixed ∧ decrypt key mixed = plain ∧
      encrypt key (decrypt key plain) = plain := by
  intro key plain mixed
  have two : 2 ≤ plain.length := by decide
  have encrypted : encrypt key plain = mixed := by decide +kernel
  obtain ⟨restored, again⟩ := inverse_on_blocks key two
  rw [encrypted] at restored
  exact ⟨encrypted, restored, again⟩

end Xxtea

end CilRecovery
