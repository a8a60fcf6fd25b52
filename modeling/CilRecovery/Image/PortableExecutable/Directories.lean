import CilRecovery.Image.PortableExecutable.Layout

/-!
# Data directories

What a parsed image needs of each directory that the headers point to.
-/

set_option autoImplicit false

namespace CilRecovery.PortableExecutable

/-!
## Runtime headers

The runtime header of a managed image leads to the metadata, which begin with the version of the
runtime.
-/

/-- Reads the version at the start of the metadata, which must be text. -/
def readVersion : Reader Unit := do
  Reader.skip 12
  let length ← Reader.unsigned 4
  let _first ← Reader.peekByte
  checkText (← Reader.take length)

def checkRuntimeHeader (layout : Layout) (address : Nat) : Reader Unit := do
  layout.goTo address
  Reader.skip 8
  let metadataAddress ← Reader.unsigned 4
  let metadataSize ← Reader.unsigned 4
  Reader.skip 56
  layout.goTo metadataAddress
  let metadata ← Reader.take metadataSize
  Reader.check (readVersion.decode metadata)

/-!
## Import tables

An import table lists libraries up to an entry without a name or without an address table. Each
entry leads to the name of the library and to its symbols, which are imported by number or by
name.
-/

/-- The part of a symbol's pointer that is the address of its name. -/
def symbolAddressRange : Nat := 0x80000000

/-- Checks a symbol. The top bit marks one that has a number. A name behind an address that no
section holds is not looked at. -/
def checkSymbol (layout : Layout) (pointer : Nat) : Reader Unit :=
  if LittleEndian.capacity layout.pointerSize ≤ 2 * pointer then return ()
  else
    match layout.position? (pointer % symbolAddressRange) with
    | none => return ()
    | some position => do
        goTo position
        let _hint ← Reader.uint16
        checkTextAt (position + 2)

/-- Checks a library: its name, its symbols and its address table. The address table lists the
symbols too, for a library without a list of its own. -/
def checkLibrary (layout : Layout) (symbols name addresses : Nat) : Reader Unit := do
  checkTextAt (← layout.locate name)
  let addressPosition ← layout.locate addresses
  goTo ((layout.position? symbols).getD addressPosition)
  let pointers ← layout.readPointers
  pointers.forM (checkSymbol layout)
  goTo addressPosition
  let _addresses ← layout.readPointers

/-- Checks the libraries of an import table, each of which takes at least a byte. -/
def checkLibraries (layout : Layout) : (fuel : Nat) → Reader Unit
  | 0 => throw .outOfBounds
  | fuel + 1 => do
      let symbols ← Reader.unsigned 4
      Reader.skip 8
      let name ← Reader.unsigned 4
      let addresses ← Reader.unsigned 4
      if name = 0 || addresses = 0 then return ()
      Reader.peek (checkLibrary layout symbols name addresses)
      checkLibraries layout fuel

def checkImports (layout : Layout) (address : Nat) : Reader Unit := do
  layout.goTo address
  checkLibraries layout ((← Reader.left) + 1)

/-!
## Debug tables

A debug table lists records that lie anywhere in the file. Records of the known kinds must have
their form, others are not looked at.
-/

/-- An entry of a debug table: the kind of a record, its size and its position in the file. -/
structure DebugEntry where
  kind : Nat
  size : Nat
  position : Nat
  deriving DecidableEq

def debugEntrySize : Nat := 28

def readDebugEntry : Reader DebugEntry := do
  Reader.skip 12
  let kind ← Reader.unsigned 4
  let size ← Reader.unsigned 4
  Reader.skip 4
  let position ← Reader.unsigned 4
  return ⟨kind, size, position⟩

/-- The letters `RSDS`, which begin the reference to a symbol file by a unique identifier. -/
def identifierSignature : UInt32 := 0x53445352

/-- The letters `NB10`, which begin the reference to a symbol file by a time stamp. -/
def timeStampSignature : UInt32 := 0x3031424E

/-- The letters that begin a record of guided optimization: `LTCG`, or `PGU` and a zero. -/
def optimizationSignatures : List UInt32 := [0x4C544347, 0x50475500]

/-- Checks the reference to a symbol file, which ends with the path of the file. -/
def checkSymbolFile (size : Nat) : Reader Unit := do
  if size < 24 then throw (.executable .table)
  let signature ← Reader.uint32
  if signature = identifierSignature then
    Reader.skip 20
    Reader.skip (size - 24)
  else if signature = timeStampSignature then
    Reader.skip 12
    Reader.skip (size - 16)

def checkOptimization (size : Nat) : Reader Unit := do
  let signature ← Reader.uint32
  if signature ∈ optimizationSignatures then
    if size < 4 then throw (.executable .table)
    Reader.skip (size - 4)

def checkReproduction : Reader Unit := do
  let length ← Reader.unsigned 4
  Reader.skip length

def DebugEntry.check (entry : DebugEntry) : Reader Unit :=
  match entry.kind with
  | 2 => do
      goTo entry.position
      checkSymbolFile entry.size
  | 12 => do
      goTo entry.position
      Reader.skip 20
  | 13 => do
      goTo entry.position
      checkOptimization entry.size
  | 16 => do
      if entry.size ≠ 0 then
        goTo entry.position
        checkReproduction
  | 20 => do
      goTo entry.position
      Reader.skip 4
  | _ => return ()

def checkDebugTable (layout : Layout) (address size : Nat) : Reader Unit := do
  layout.goTo address
  if size % debugEntrySize ≠ 0 then throw (.executable .table)
  let entries ← Reader.times readDebugEntry (size / debugEntrySize)
  entries.forM DebugEntry.check

/-!
## Thread storage

The table of thread storage holds absolute addresses: the data that each thread starts with, the
slot of the index, and the functions that are called when threads come and go. Zero stands for
nothing.
-/

structure ThreadStorage where
  dataStart : Nat
  dataEnd : Nat
  slot : Nat
  callbacks : Nat
  deriving DecidableEq

def ThreadStorage.read (layout : Layout) : Reader ThreadStorage := do
  let dataStart ← Reader.unsigned layout.pointerSize
  let dataEnd ← Reader.unsigned layout.pointerSize
  let slot ← Reader.unsigned layout.pointerSize
  let callbacks ← Reader.unsigned layout.pointerSize
  Reader.skip 8
  return ⟨dataStart, dataEnd, slot, callbacks⟩

def ThreadStorage.checkData (storage : ThreadStorage) (layout : Layout) : Reader Unit := do
  if storage.dataStart ≠ 0 && storage.dataEnd ≠ 0 then
    if storage.dataEnd < storage.dataStart then throw (.executable .table)
    layout.goTo (← layout.relative storage.dataStart)
    Reader.skip (storage.dataEnd - storage.dataStart)

/-- Checks the slot. No section has to hold it. -/
def ThreadStorage.checkSlot (storage : ThreadStorage) (layout : Layout) : Reader Unit := do
  if storage.slot ≠ 0 then
    let _address ← layout.relative storage.slot

def ThreadStorage.checkCallbacks (storage : ThreadStorage) (layout : Layout) : Reader Unit := do
  if storage.callbacks ≠ 0 then
    layout.goTo (← layout.relative storage.callbacks)
    let pointers ← layout.readPointers
    pointers.forM fun pointer => do
      let _position ← layout.locate (← layout.relative pointer)

def checkThreadStorage (layout : Layout) (address : Nat) : Reader Unit := do
  layout.goTo address
  let storage ← ThreadStorage.read layout
  storage.checkData layout
  storage.checkSlot layout
  storage.checkCallbacks layout

/-!
## Certificate tables

A certificate table lies at a position of the file rather than at an address, because it is never
loaded. Its certificates begin at multiples of eight bytes.
-/

def certificateHeaderSize : Nat := 8

def certificateRevisions : List Nat := [0x100, 0x200]

def certificateKinds : List Nat := [1, 2, 3, 4]

def readCertificate : Reader Unit := do
  let length ← Reader.unsigned 4
  let revision ← Reader.unsigned 2
  let kind ← Reader.unsigned 2
  if revision ∉ certificateRevisions || kind ∉ certificateKinds then throw (.executable .table)
  Reader.skip (length - certificateHeaderSize)
  Reader.leap (paddingTo 8 (← Reader.position))

/-- Reads certificates up to a position. Each takes at least a byte. -/
def readCertificates (limit : Nat) : (fuel : Nat) → Reader Unit
  | 0 => throw .outOfBounds
  | fuel + 1 => do
      if limit ≤ (← Reader.position) then return ()
      readCertificate
      readCertificates limit fuel

def checkCertificates (position size : Nat) : Reader Unit := do
  Reader.seek (position + size)
  Reader.seek position
  readCertificates (position + size) (size + 1)

end CilRecovery.PortableExecutable
