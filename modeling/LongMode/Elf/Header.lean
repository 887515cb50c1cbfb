/-!
The records of an ELF image. An image begins with an identification that says how wide addresses are
and in which order the bytes of numbers come; the file header after it names two tables, one of
program headers and one of section headers. `FileHeader.read?`, `ProgramHeader.table?` and
`SectionHeader.table?` read them; none of them reads past the end of the image.
-/

set_option autoImplicit false
set_option relaxedAutoImplicit false

namespace LongMode.Elf

/-- How an image writes numbers. -/
structure Encoding where
  /-- Addresses and offsets have eight bytes instead of four. -/
  wide : Bool
  /-- The least significant byte comes first. -/
  littleEndian : Bool
  deriving DecidableEq, Repr

namespace Encoding

/-- The number that bytes denote. -/
def number (e : Encoding) (bytes : List UInt8) : Nat :=
  (if e.littleEndian then bytes.reverse else bytes).foldl (fun n b => n * 256 + b.toNat) 0

/-- The number of bytes in an address. -/
def addressBytes (e : Encoding) : Nat :=
  if e.wide then 8 else 4

end Encoding

/-- `size` bytes at an offset; the offset has to be inside the image even for an empty slice. -/
def slice? (image : List UInt8) (offset size : Nat) : Option (List UInt8) :=
  if offset < image.length ∧ offset + size ≤ image.length then
    some ((image.drop offset).take size)
  else none

/-- The number in `size` bytes at an offset. -/
def numberAt? (e : Encoding) (image : List UInt8) (offset size : Nat) : Option Nat :=
  (slice? image offset size).map e.number

/-! ### Fields one after another -/

/-- A reader of consecutive fields; it fails where the bytes run out. -/
abbrev FieldReader := StateT (List UInt8) Option

namespace FieldReader

/-- A number of a given number of bytes. -/
def number (e : Encoding) (count : Nat) : FieldReader Nat := fun bytes =>
  if count ≤ bytes.length then some (e.number (bytes.take count), bytes.drop count) else none

/-- A number of two bytes. -/
def half (e : Encoding) : FieldReader Nat :=
  number e 2

/-- A number of four bytes. -/
def word (e : Encoding) : FieldReader Nat :=
  number e 4

/-- An address, an offset or a size. -/
def address (e : Encoding) : FieldReader Nat :=
  number e e.addressBytes

/-- Read a record at an offset of an image. -/
def run? {α : Type} (reader : FieldReader α) (image : List UInt8) (offset : Nat) : Option α :=
  (reader (image.drop offset)).map (·.1)

end FieldReader

/-- `count` records of equal size, one after another. The image has to be long enough for so many
records of that size before any of them is read. -/
def records? {α : Type} (reader : FieldReader α) (image : List UInt8) (offset size count : Nat) :
    Option (List α) :=
  if image.length / size < count then none
  else (List.range count).mapM fun i => reader.run? image (offset + i * size)

/-! ### The file header -/

/-- The length of the identification. -/
def identificationLength : Nat := 16

/-- The four bytes that every image starts with. -/
def magic : List UInt8 := [0x7f, 0x45, 0x4c, 0x46]

/-- The encoding that the identification of an image names. Byte 4 is 1 for narrow addresses and 2
for wide ones, byte 5 is 1 for the least significant byte first and 2 for the most significant
one. -/
def Encoding.ofImage? (image : List UInt8) : Option Encoding :=
  if image.length < identificationLength ∨ image.take 4 ≠ magic then none
  else do
    let wide ←
      match image.getD 4 0 with
      | 1 => some false
      | 2 => some true
      | _ => none
    let littleEndian ←
      match image.getD 5 0 with
      | 1 => some true
      | 2 => some false
      | _ => none
    some { wide, littleEndian }

/-- What the file header says. -/
structure FileHeader where
  /-- The type of the image. -/
  kind : Nat
  /-- The processor it is for. -/
  machine : Nat
  /-- The address of the first instruction. -/
  entry : Nat
  /-- Where the program headers are. -/
  programOffset : Nat
  /-- Where the section headers are; zero for none. -/
  sectionOffset : Nat
  /-- The size of a program header as the header states it. -/
  programEntrySize : Nat
  /-- The number of program headers. -/
  programCount : Nat
  /-- The number of section headers. -/
  sectionCount : Nat
  /-- The index of the section that holds the names of sections. -/
  sectionNames : Nat
  deriving DecidableEq, Repr

namespace FileHeader

/-- Read what follows the identification. -/
def reader (e : Encoding) : FieldReader FileHeader := do
  let kind ← .half e
  let machine ← .half e
  let _version ← FieldReader.word e
  let entry ← .address e
  let programOffset ← .address e
  let sectionOffset ← .address e
  let _flags ← FieldReader.word e
  let _size ← FieldReader.half e
  let programEntrySize ← .half e
  let programCount ← .half e
  let _sectionEntrySize ← FieldReader.half e
  let sectionCount ← .half e
  let sectionNames ← .half e
  return { kind, machine, entry, programOffset, sectionOffset, programEntrySize, programCount,
           sectionCount, sectionNames }

/-- The file header of an image. -/
def read? (e : Encoding) (image : List UInt8) : Option FileHeader :=
  (reader e).run? image identificationLength

end FileHeader

/-! ### Program headers -/

/-- A program header: a part of the image and its place in memory. -/
structure ProgramHeader where
  /-- What the part is for. -/
  kind : Nat
  /-- The permissions of its pages. -/
  flags : Nat
  /-- Where its bytes are in the image. -/
  offset : Nat
  /-- Where it goes in memory. -/
  address : Nat
  /-- How many bytes the image has. -/
  fileSize : Nat
  /-- How many bytes it takes in memory. -/
  memorySize : Nat
  deriving DecidableEq, Repr

namespace ProgramHeader

/-- The kind of a part that is loaded. -/
def load : Nat := 1

/-- The kind of the part that holds the dynamic section. -/
def dynamic : Nat := 2

/-- The kind of the part that names an interpreter. -/
def interpreter : Nat := 3

/-- The kind of the part that holds the program headers themselves. -/
def headerTable : Nat := 6

/-- The size of a program header. -/
def size (e : Encoding) : Nat :=
  if e.wide then 56 else 32

/-- Read a program header. The flags come second where addresses are wide, and after the sizes where
they are narrow. -/
def reader (e : Encoding) : FieldReader ProgramHeader := do
  let kind ← .word e
  let early ← if e.wide then .word e else pure 0
  let offset ← .address e
  let address ← .address e
  let _physicalAddress ← FieldReader.address e
  let fileSize ← .address e
  let memorySize ← .address e
  let late ← if e.wide then pure 0 else .word e
  let _alignment ← FieldReader.address e
  return { kind, flags := if e.wide then early else late, offset, address, fileSize, memorySize }

/-- The program headers of an image. -/
def table? (e : Encoding) (image : List UInt8) (h : FileHeader) : Option (List ProgramHeader) :=
  records? (reader e) image h.programOffset (size e) h.programCount

end ProgramHeader

/-! ### Section headers -/

/-- A section header: a part of the image for linkers. -/
structure SectionHeader where
  /-- What the section holds. -/
  kind : Nat
  /-- Its place in memory. -/
  address : Nat
  /-- Where it is in the image. -/
  offset : Nat
  /-- Its size. -/
  size : Nat
  /-- The index of a section that belongs to it. -/
  link : Nat
  /-- The size of its entries, zero if it has none. -/
  entrySize : Nat
  deriving DecidableEq, Repr

namespace SectionHeader

/-- The size of a section header. -/
def recordSize (e : Encoding) : Nat :=
  if e.wide then 64 else 40

/-- Read a section header. -/
def reader (e : Encoding) : FieldReader SectionHeader := do
  let _name ← FieldReader.word e
  let kind ← .word e
  let _flags ← FieldReader.address e
  let address ← .address e
  let offset ← .address e
  let size ← .address e
  let link ← .word e
  let _info ← FieldReader.word e
  let _alignment ← FieldReader.address e
  let entrySize ← .address e
  return { kind, address, offset, size, link, entrySize }

/-- The section headers of an image. The first one is read whatever the count; a count of zero
stands for the size that it states. -/
def table? (e : Encoding) (image : List UInt8) (h : FileHeader) : Option (List SectionHeader) :=
  if h.sectionOffset = 0 then some []
  else do
    let first ← (reader e).run? image h.sectionOffset
    let count := if h.sectionCount = 0 then first.size else h.sectionCount
    if image.length / recordSize e < count then none
    let others ← (List.range (count - 1)).mapM fun i =>
      (reader e).run? image (h.sectionOffset + (i + 1) * recordSize e)
    some (first :: others)

end SectionHeader

end LongMode.Elf
