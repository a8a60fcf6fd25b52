import CilRecovery.Image.PortableExecutable.Directories
import CilRecovery.Image.PortableExecutable.Headers

/-!
# Portable executables

Headers, section table and directories of a file, and the image that they describe.
-/

set_option autoImplicit false

namespace CilRecovery.PortableExecutable

/-!
## Tables

A file whose data directories lead to a broken table is not taken for an executable, although only
its section table is used later on. Tables that are not listed here are not looked at.
-/

inductive Table
  | imports | resources | exceptions | certificates | relocations | debug | threadStorage
  | runtimeHeader
  deriving DecidableEq

namespace Table

def all : List Table :=
  [.imports, .resources, .exceptions, .certificates, .relocations, .debug, .threadStorage,
    .runtimeHeader]

def index : Table → Nat
  | .imports => 1
  | .resources => 2
  | .exceptions => 3
  | .certificates => 4
  | .relocations => 5
  | .debug => 6
  | .threadStorage => 9
  | .runtimeHeader => 14

end Table

def Headers.directory? (headers : Headers) (table : Table) : Option Directory :=
  headers.directories[table.index]?.filter fun directory =>
    directory.address ≠ 0 || directory.size ≠ 0

/-- Size of the fields in front of the entries of a resource directory. -/
def resourceHeaderSize : Nat := 16

/-- The machine on which functions are described by exception tables. -/
def wideMachine : UInt16 := 0x8664

def exceptionEntrySize : Nat := 12

/-- Checks an exception table, which has whole entries at a multiple of four bytes. -/
def checkExceptions (layout : Layout) (directory : Directory) : Reader Unit := do
  if directory.size % exceptionEntrySize ≠ 0 then throw (.executable .table)
  let position ← layout.locate directory.address
  if position % 4 ≠ 0 then throw (.executable .table)

/-- Checks that the bytes of a table exist, and that they are not fewer than `least`. -/
def checkExtent (layout : Layout) (directory : Directory) (least : Nat) : Reader Unit := do
  layout.goTo directory.address
  let table ← Reader.take directory.size
  if table.length < least then throw (.executable .table)

def Headers.checkTable (headers : Headers) (directory : Directory) : Table → Reader Unit
  | .imports => checkImports headers.layout directory.address
  | .resources => checkExtent headers.layout directory resourceHeaderSize
  | .exceptions =>
      if headers.machine = wideMachine then checkExceptions headers.layout directory
      else return ()
  | .certificates => checkCertificates directory.address directory.size
  | .relocations => checkExtent headers.layout directory 0
  | .debug => checkDebugTable headers.layout directory.address directory.size
  | .threadStorage => checkThreadStorage headers.layout directory.address
  | .runtimeHeader => checkRuntimeHeader headers.layout directory.address

def Headers.checkTables (headers : Headers) : Reader Unit :=
  Table.all.forM fun table =>
    match headers.directory? table with
    | some directory => headers.checkTable directory table
    | none => return ()

/-!
## The image

The section map of a portable executable is the section table of its headers, provided the tables
that the headers lead to are sound.
-/

def readSections : Reader (List SectionMapping) := do
  let headers ← readHeaders
  headers.checkTables
  return headers.layout.sections

/-- The section table of a file. A file that ends early is no executable. -/
def sections (data : Bytes) : Except Error (List SectionMapping) :=
  match readSections.decode data with
  | .error .outOfBounds => .error (.executable .truncated)
  | result => result

end CilRecovery.PortableExecutable

namespace CilRecovery

/-- The image of a portable executable, mapped by its section table. -/
def Image.ofExecutable (data : Bytes) : Except Error Image := do
  let sections ← PortableExecutable.sections data
  return { Image.ofBytes data with sections }

end CilRecovery
