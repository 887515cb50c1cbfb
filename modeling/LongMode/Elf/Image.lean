import LongMode.Elf.Tables
import LongMode.Text.Hex

/-!
ELF images. `Image.ofBytes?` reads the headers of an image, and refuses one of which some table does
not lie inside it; it does not judge whether the program can be run.
-/

set_option autoImplicit false
set_option relaxedAutoImplicit false

namespace LongMode.Elf

open Text

/-- An image whose tables all lie inside it. -/
structure Image where
  /-- The bytes. -/
  bytes : List UInt8
  /-- How numbers are written. -/
  encoding : Encoding
  /-- The file header. -/
  header : FileHeader
  /-- The program headers in order. -/
  programs : List ProgramHeader

namespace Image

/-- Read the headers of an image. -/
def ofBytes? (bytes : List UInt8) : Option Image := do
  let encoding ← Encoding.ofImage? bytes
  let header ← FileHeader.read? encoding bytes
  let programs ← ProgramHeader.table? encoding bytes header
  let sections ← SectionHeader.table? encoding bytes header
  if sectionTablesFit encoding bytes header sections
      && dynamicTablesFit encoding bytes header.machine programs then
    some { bytes, encoding, header, programs }
  else none

/-- The path that a program header names as the interpreter: its bytes but the last one, if they lie
in the image and are UTF-8. -/
def interpreterPath? (bytes : List UInt8) (h : ProgramHeader) : Option String :=
  (slice? bytes h.offset (h.fileSize - 1)).bind Utf8.decode?

/-- The interpreter that an image asks for: the path that the last of its non-empty headers for one
names, and where that path cannot be read, the place in the image that the first of them states. -/
def interpreter? (i : Image) : Option String :=
  let headers := i.programs.filter (·.kind = ProgramHeader.interpreter)
  headers.head?.map fun first =>
    let path := (headers.filter (·.fileSize ≠ 0)).getLast?.bind (interpreterPath? i.bytes)
    path.getD ("at file offset " ++ hex first.offset)

/-- The headers of the parts that are loaded and not empty, in order. -/
def loads (i : Image) : List ProgramHeader :=
  i.programs.filter fun h => h.kind = ProgramHeader.load ∧ 0 < h.memorySize

/-- Where the program headers are in memory before the image is moved: where a header of their own
says, or else in the first loaded part whose bytes of the image they begin in. -/
def headerTableAddress? (i : Image) : Option Nat :=
  match i.programs.find? (·.kind = ProgramHeader.headerTable) with
  | some h => some h.address
  | none =>
    let offset := i.header.programOffset
    (i.loads.find? fun h => h.offset ≤ offset ∧ offset < h.offset + h.fileSize).map fun h =>
      h.address + (offset - h.offset)

end Image

end LongMode.Elf
