import CilRecovery.Oracle.Wire
import CilRecovery.Proofs.Oracle.Wire
import CilRecovery.Proofs.Reader.Accepts

/-!
# Frames neither merge nor split

What was written as frames is read back message by message, and wherever the written bytes are
cut, exactly the messages whose frames are complete are read.
-/

set_option autoImplicit false

namespace CilRecovery.Oracle

/-! ## Lengths -/

namespace Frame

theorem length_encodeLength (length : Nat) : (encodeLength length).length = 4 := by
  rw [encodeLength, List.length_reverse, LittleEndian.length_encode]

theorem decodeLength_encodeLength {length : Nat} (small : length < UInt32.size) :
    decodeLength (encodeLength length) = length := by
  rw [decodeLength, encodeLength, List.reverse_reverse, LittleEndian.decode_encode]
  exact Nat.mod_eq_of_lt small

def ofText (text : Bytes) : Bytes := encodeLength text.length ++ text

theorem length_ofText (text : Bytes) : (ofText text).length = 4 + text.length := by
  rw [ofText, List.length_append, length_encodeLength]

structure Fits (limit : Nat) (text : Bytes) : Prop where
  limited : text.length ≤ limit
  counted : text.length < UInt32.size

variable {limit : Nat} {text : Bytes}

theorem not_fits_iff : ¬ Fits limit text ↔ limit < text.length ∨ UInt32.size ≤ text.length := by
  constructor
  · intro refused
    by_contra accepted
    obtain ⟨limited, counted⟩ := not_or.mp accepted
    exact refused ⟨Nat.le_of_not_lt limited, Nat.lt_of_not_le counted⟩
  · rintro (large | large) ⟨limited, counted⟩
    · exact absurd limited (Nat.not_le.mpr large)
    · exact absurd counted (Nat.not_lt.mpr large)

/-! ## One frame -/

theorem writes {α : Type} {render : α → Bytes} {message : α} (fits : Fits limit (render message)) :
    Writer.Writes (write render limit message) (ofText (render message)) := by
  have accepted := fun large => not_fits_iff.mpr large fits
  rw [write, if_neg accepted]
  exact (Writer.Writes.put _).bind (Writer.Writes.put _)

theorem write_refused {α : Type} {render : α → Bytes} {message : α}
    (refused : ¬ Fits limit (render message)) (buffer : Bytes) :
    write render limit message buffer =
      .error (.protocol .write (.messageSize (render message).length limit)) buffer := by
  rw [write, if_pos (not_fits_iff.mp refused)]
  rfl

/-- A frame is taken off the stream whatever follows it. -/
theorem next_ofText (fits : Fits limit text) (rest : Bytes) :
    next limit (ofText text ++ rest) = (.ok text, rest) := by
  have front : (ofText text ++ rest).take 4 = encodeLength text.length := by
    rw [ofText, List.append_assoc, List.take_left' (length_encodeLength _)]
  have back : (ofText text ++ rest).drop 4 = text ++ rest := by
    rw [ofText, List.append_assoc, List.drop_left' (length_encodeLength _)]
  have long : ¬ (ofText text ++ rest).length < 4 := by
    rw [List.length_append, length_ofText]
    omega
  have complete : ¬ (text ++ rest).length < text.length := by
    rw [List.length_append]
    omega
  rw [next, if_neg long, front, back, decodeLength_encodeLength fits.counted,
    if_neg (Nat.not_lt.mpr fits.limited), if_neg complete, List.take_left, List.drop_left]

/-- A frame that was cut short ends the stream, wherever the cut is. -/
theorem next_take (fits : Fits limit text) {cut : Nat} (short : cut < (ofText text).length) :
    next limit ((ofText text).take cut) = (.error (.file .endOfData), []) := by
  have length : ((ofText text).take cut).length = cut := by
    rw [List.length_take]
    omega
  by_cases early : cut < 4
  · rw [next, if_pos (by omega)]
  · have front : ((ofText text).take cut).take 4 = encodeLength text.length := by
      rw [List.take_take, Nat.min_eq_left (by omega), ofText,
        List.take_left' (length_encodeLength _)]
    rw [length_ofText] at short
    rw [next, if_neg (by omega), front, decodeLength_encodeLength fits.counted,
      if_neg (Nat.not_lt.mpr fits.limited), if_pos (by rw [List.length_drop]; omega)]

theorem length_lt_of_next {stream rest : Bytes} (found : next limit stream = (.ok text, rest)) :
    rest.length < stream.length := by
  rw [next] at found
  split at found
  · cases found
  · dsimp only at found
    split at found
    · cases found
    · split at found
      · cases found
      · cases found
        simp only [List.length_drop]
        omega

end Frame

/-! ## Messages -/

/-- How the messages of a type are sent, such that each is read back from its text. -/
structure Codec (α : Type) where
  render : α → Bytes
  parse : Bytes → Except Error α
  parse_render : ∀ message, parse (render message) = .ok message

namespace Codec

def requests : Codec Request :=
  ⟨Wire.renderRequest, Wire.parseRequest, Wire.parseRequest_renderRequest⟩

def responses : Codec Response :=
  ⟨Wire.renderResponse, Wire.parseResponse, Wire.parseResponse_renderResponse⟩

variable {α : Type} (codec : Codec α) (limit : Nat)

def write (message : α) : Writer Unit := Frame.write codec.render limit message

def next (stream : Bytes) : Except Error α × Bytes := Frame.nextMessage codec.parse limit stream

theorem length_lt_of_next {message : α} {stream rest : Bytes}
    (found : codec.next limit stream = (.ok message, rest)) : rest.length < stream.length := by
  obtain ⟨result, after, same⟩ : ∃ result after, Frame.next limit stream = (result, after) :=
    ⟨_, _, rfl⟩
  rw [next, Frame.nextMessage, same] at found
  cases result with
  | error error => cases found
  | ok text =>
      rw [← (Prod.mk.inj found).2]
      exact Frame.length_lt_of_next same

/-- The messages of a stream up to the first error, and that error. -/
def readAll (stream : Bytes) : List α × Error :=
  match _found : codec.next limit stream with
  | (.error error, _) => ([], error)
  | (.ok message, rest) =>
      let (messages, error) := readAll rest
      (message :: messages, error)
termination_by stream.length
decreasing_by exact codec.length_lt_of_next limit _found

def Accepts (message : α) : Prop :=
  ∃ before after, codec.write limit message before = .ok () after

def frame (message : α) : Bytes := Frame.ofText (codec.render message)

def frames (messages : List α) : Bytes := messages.flatMap codec.frame

section

variable {codec limit} {message : α} {stream rest : Bytes}

theorem accepts_iff : codec.Accepts limit message ↔ Frame.Fits limit (codec.render message) := by
  constructor
  · intro ⟨before, after, written⟩
    by_contra refused
    rw [write, Frame.write_refused refused] at written
    cases written
  · intro fits
    exact ⟨[], _, Frame.writes fits []⟩

theorem readAll_of_error {error : Error} (failed : codec.next limit stream = (.error error, rest)) :
    codec.readAll limit stream = ([], error) := by
  rw [readAll]
  split
  · rename_i found
    rw [failed] at found
    cases found
    rfl
  · rename_i found
    rw [failed] at found
    cases found

theorem readAll_of_ok (read : codec.next limit stream = (.ok message, rest)) :
    codec.readAll limit stream =
      (message :: (codec.readAll limit rest).1, (codec.readAll limit rest).2) := by
  rw [readAll]
  split
  · rename_i found
    rw [read] at found
    cases found
  · rename_i found
    rw [read] at found
    cases found
    rfl

theorem next_frame (accepted : codec.Accepts limit message) (rest : Bytes) :
    codec.next limit (codec.frame message ++ rest) = (.ok message, rest) := by
  rw [next, Frame.nextMessage, frame, Frame.next_ofText (accepts_iff.mp accepted)]
  exact congrArg (·, rest) (codec.parse_render message)

/-- One message is read, and the rest of the stream as if it stood alone. -/
theorem readAll_frame (accepted : codec.Accepts limit message) (rest : Bytes) :
    codec.readAll limit (codec.frame message ++ rest) =
      (message :: (codec.readAll limit rest).1, (codec.readAll limit rest).2) :=
  readAll_of_ok (next_frame accepted rest)

/-- A frame that is cut short gives no message, however little is missing. -/
theorem readAll_take_frame (accepted : codec.Accepts limit message) {cut : Nat}
    (short : cut < (codec.frame message).length) :
    codec.readAll limit ((codec.frame message).take cut) = ([], .file .endOfData) := by
  have ended : codec.next limit ((codec.frame message).take cut) =
      (.error (.file .endOfData), []) := by
    rw [next, Frame.nextMessage, frame, Frame.next_take (accepts_iff.mp accepted) short]
    rfl
  exact readAll_of_error ended

theorem readAll_nil : codec.readAll limit [] = ([], .file .endOfData) :=
  readAll_of_error rfl

end

/-! ## Sequences -/

variable {codec limit} {messages : List α}

theorem frames_cons (message : α) (messages : List α) :
    codec.frames (message :: messages) = codec.frame message ++ codec.frames messages :=
  List.flatMap_cons

theorem readAll_frames (accepted : ∀ message ∈ messages, codec.Accepts limit message) :
    codec.readAll limit (codec.frames messages) = (messages, .file .endOfData) := by
  induction messages with
  | nil => exact readAll_nil
  | cons message messages ih =>
      rw [List.forall_mem_cons] at accepted
      rw [frames_cons, readAll_frame accepted.1, ih accepted.2]

/-- The number of messages whose frames end before a cut. -/
structure CompleteAt (codec : Codec α) (messages : List α) (cut count : Nat) : Prop where
  bounded : count ≤ messages.length
  complete : ∀ index < messages.length,
    index < count ↔ (codec.frames (messages.take (index + 1))).length ≤ cut

theorem CompleteAt.zero {message : α} {cut : Nat} (short : cut < (codec.frame message).length) :
    CompleteAt codec (message :: messages) cut 0 := by
  refine ⟨Nat.zero_le _, fun index _ => iff_of_false (Nat.not_lt_zero index) ?_⟩
  rw [List.take_succ_cons, frames_cons, List.length_append]
  omega

theorem CompleteAt.succ {message : α} {cut count : Nat}
    (earlier : CompleteAt codec messages cut count) :
    CompleteAt codec (message :: messages) ((codec.frame message).length + cut) (count + 1) := by
  refine ⟨Nat.succ_le_succ earlier.bounded, fun index inside => ?_⟩
  rw [List.take_succ_cons, frames_cons, List.length_append]
  cases index with
  | zero =>
      have empty : (codec.frames (messages.take 0)).length = 0 := rfl
      omega
  | succ index =>
      have same := earlier.complete index (Nat.lt_of_succ_lt_succ inside)
      omega

/-- A cut keeps the messages whose frames are complete, and nothing else is read. -/
theorem readAll_take_frames (accepted : ∀ message ∈ messages, codec.Accepts limit message)
    (cut : Nat) :
    ∃ count, CompleteAt codec messages cut count ∧
      codec.readAll limit ((codec.frames messages).take cut) =
        (messages.take count, .file .endOfData) := by
  induction messages generalizing cut with
  | nil =>
      refine ⟨0, ⟨Nat.le_refl _, fun _ none => absurd none (Nat.not_lt_zero _)⟩, ?_⟩
      have empty : (codec.frames []).take cut = [] := List.take_nil
      rw [empty, readAll_nil]
      rfl
  | cons message messages ih =>
      rw [List.forall_mem_cons] at accepted
      rw [frames_cons, List.take_append]
      by_cases short : cut < (codec.frame message).length
      · refine ⟨0, .zero short, ?_⟩
        rw [Nat.sub_eq_zero_of_le (Nat.le_of_lt short), List.take_zero, List.append_nil,
          readAll_take_frame accepted.1 short]
        rfl
      · obtain ⟨count, complete, read⟩ := ih accepted.2 (cut - (codec.frame message).length)
        have moved : CompleteAt codec (message :: messages) _ (count + 1) := complete.succ
        rw [Nat.add_sub_cancel' (Nat.le_of_not_lt short)] at moved
        refine ⟨count + 1, moved, ?_⟩
        rw [List.take_of_length_le (Nat.le_of_not_lt short), readAll_frame accepted.1, read]
        rfl

theorem forM_write (accepted : ∀ message ∈ messages, codec.Accepts limit message) :
    Writer.Writes (messages.forM (codec.write limit)) (codec.frames messages) :=
  .forM fun message member => Frame.writes (accepts_iff.mp (accepted message member))

/-- Messages that are accepted one by one are written as their frames. Reading gives back exactly
those messages, and after any cut exactly those whose frames are complete, before the data ends. A
message is refused only for its size, and then nothing is written. -/
theorem readAll_written (codec : Codec α) (limit : Nat) :
    (∀ messages : List α, (∀ message ∈ messages, codec.Accepts limit message) →
      messages.forM (codec.write limit) [] = .ok () (codec.frames messages) ∧
      codec.readAll limit (codec.frames messages) = (messages, .file .endOfData) ∧
      ∀ cut, ∃ count, codec.CompleteAt messages cut count ∧
        codec.readAll limit ((codec.frames messages).take cut) =
          (messages.take count, .file .endOfData)) ∧
    ∀ (message : α) (before after : Bytes) (error : Error),
      codec.write limit message before = .error error after →
        (limit < (codec.render message).length ∨
          UInt32.size ≤ (codec.render message).length) ∧
        error = .protocol .write (.messageSize (codec.render message).length limit) ∧
        after = before := by
  refine ⟨fun messages accepted => ⟨forM_write accepted [], readAll_frames accepted,
    readAll_take_frames accepted⟩, fun message before after error failed => ?_⟩
  by_cases fits : Frame.Fits limit (codec.render message)
  · rw [write, Frame.writes fits] at failed
    cases failed
  · rw [write, Frame.write_refused fits] at failed
    cases failed
    exact ⟨Frame.not_fits_iff.mp fits, rfl, rfl⟩

/-- The second of two requests is cut, a third one is refused, and a message with escapes is read
back. -/
theorem readAll_written_cut :
    requests.readAll 28 ((requests.frames [.shutdown, .decryptMethods]).take 50) =
        ([.shutdown], .file .endOfData) ∧
      requests.write 28 (.installHook [0x0A, 0x00, 0x2A]) [0xCC] =
        .error (.protocol .write (.messageSize 75 28)) [0xCC] ∧
      responses.readAll 48 (responses.frames [.ack, .failed "\"é\"\n"]) =
        ([.ack, .failed "\"é\"\n"], .file .endOfData) := by
  obtain ⟨sequences, refusals⟩ := readAll_written requests 28
  refine ⟨?_, ?_, ?_⟩
  · have accepted : ∀ message ∈ [Request.shutdown, .decryptMethods],
        requests.Accepts 28 message := by
      intro message member
      simp only [List.mem_cons, List.not_mem_nil, or_false] at member
      rcases member with rfl | rfl
      · exact accepts_iff.mpr ⟨by decide +kernel, by decide +kernel⟩
      · exact accepts_iff.mpr ⟨by decide +kernel, by decide +kernel⟩
    obtain ⟨-, -, cuts⟩ := sequences _ accepted
    obtain ⟨count, ⟨bounded, complete⟩, read⟩ := cuts 50
    have first := (complete 0 (by decide)).mpr (by decide +kernel)
    have second : ¬ 1 < count := (complete 1 (by decide)).not.mpr (by decide +kernel)
    have single : count = 1 := by omega
    rw [read, single]
    rfl
  · cases result : requests.write 28 (.installHook [0x0A, 0x00, 0x2A]) [0xCC] with
    | ok _ after =>
        have fits := accepts_iff.mp ⟨_, _, result⟩
        exact absurd fits.limited (by decide +kernel)
    | error error after =>
        obtain ⟨-, rfl, rfl⟩ := refusals _ _ _ _ result
        have size : (requests.render (.installHook [0x0A, 0x00, 0x2A])).length = 75 := by
          decide +kernel
        rw [size]
  · have accepted : ∀ message ∈ [Response.ack, .failed "\"é\"\n"],
        responses.Accepts 48 message := by
      intro message member
      simp only [List.mem_cons, List.not_mem_nil, or_false] at member
      rcases member with rfl | rfl
      · exact accepts_iff.mpr ⟨by decide +kernel, by decide +kernel⟩
      · exact accepts_iff.mpr ⟨by decide +kernel, by decide +kernel⟩
    exact ((readAll_written responses 48).1 _ accepted).2.1

end Codec

end CilRecovery.Oracle
