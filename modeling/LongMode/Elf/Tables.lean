import LongMode.Elf.Header
import LongMode.Memory.Address
import LongMode.Text.Utf8

/-!
The tables of an ELF image for linkers: names, symbols, relocations, versions and the dynamic
section. Loading a static program uses none of them, but an image is refused as a whole if one of
them does not lie inside it. `sectionTablesFit` checks the tables that section headers name,
`dynamicTablesFit` those that the dynamic section names.
-/

set_option autoImplicit false
set_option relaxedAutoImplicit false

namespace LongMode.Elf

open Text

/-- Whether a slice lies in an image; an empty one does whatever its offset. -/
def sliceFits (image : List UInt8) (offset size : Nat) : Bool :=
  size = 0 || (slice? image offset size).isSome

/-- Whether a table of strings lies in an image and every string in it is UTF-8. -/
def stringsFit (image : List UInt8) (offset size : Nat) : Bool :=
  offset + size ≤ image.length && (Utf8.decode? ((image.drop offset).take size)).isSome

/-- The size of a symbol. -/
def symbolSize (e : Encoding) : Nat :=
  if e.wide then 24 else 16

/-- The size of a relocation, which may carry an addend. -/
def relocationSize (e : Encoding) (addend : Bool) : Nat :=
  (if addend then 3 else 2) * e.addressBytes

/-! ### Sections -/

namespace SectionHeader

/-- The kind of a table of symbols. -/
def symbols : Nat := 2

/-- The kind of a table of relocations with addends. -/
def relocationsWithAddend : Nat := 4

/-- The kind of a section that takes no bytes of the image. -/
def noBits : Nat := 8

/-- The kind of a table of relocations. -/
def relocations : Nat := 9

/-- The kind of the definitions of versions. -/
def versionDefinitions : Nat := 0x6ffffffd

/-- The kind of the needs of versions. -/
def versionNeeds : Nat := 0x6ffffffe

/-- The kind of the versions of symbols. -/
def symbolVersions : Nat := 0x6fffffff

/-- The index that stands for the link of the first section. -/
def indirectIndex : Nat := 0xffff

/-- Whether the bytes of a section lie in the image and in memory. -/
def fits (s : SectionHeader) (image : List UInt8) : Bool :=
  s.kind = noBits || s.size = 0
    || (s.offset + s.size ≤ image.length && s.address + s.size < addressLimit)

/-- Whether the strings at an index of the section headers lie in the image. There are none at an
index past the last section. -/
def namesFit (image : List UInt8) (sections : List SectionHeader) (index : Nat) : Bool :=
  match sections with
  | [] => true
  | first :: _ =>
    match sections[if index = indirectIndex then first.link else index]? with
    | some s => s.fits image && stringsFit image s.offset s.size
    | none => true

/-- Whether the last table of symbols, and the names of its symbols, lie in the image. -/
def symbolsFit (e : Encoding) (image : List UInt8) (sections : List SectionHeader) : Bool :=
  match sections.reverse.find? (·.kind = symbols) with
  | none => true
  | some s =>
    sliceFits image s.offset (s.size / s.entrySize * symbolSize e) && namesFit image sections s.link

/-- Whether a table of relocations lies in the image; every other section does not matter. -/
def relocationsFit (image : List UInt8) (s : SectionHeader) : Bool :=
  !(s.kind = relocations || s.kind = relocationsWithAddend)
    || (s.fits image && sliceFits image s.offset s.size)

/-- Whether the first section of a kind, if there is one, lies in the image; its offset has to be
inside even if it is empty. -/
def firstOfKindFits (image : List UInt8) (sections : List SectionHeader) (kind : Nat) : Bool :=
  match sections.find? (·.kind = kind) with
  | none => true
  | some s => (slice? image s.offset s.size).isSome

/-- Whether the strings that the first section of a kind refers to lie in the image. -/
def linkOfKindFits (image : List UInt8) (sections : List SectionHeader) (kind : Nat) : Bool :=
  match sections.find? (·.kind = kind) with
  | none => true
  | some s =>
    match sections[s.link]? with
    | some names => stringsFit image names.offset names.size
    | none => false

end SectionHeader

/-- Whether every table that the section headers name lies in the image. -/
def sectionTablesFit (e : Encoding) (image : List UInt8) (h : FileHeader)
    (sections : List SectionHeader) : Bool :=
  SectionHeader.namesFit image sections h.sectionNames
    && SectionHeader.symbolsFit e image sections
    && sections.all (SectionHeader.relocationsFit image)
    && SectionHeader.firstOfKindFits image sections SectionHeader.symbolVersions
    && SectionHeader.firstOfKindFits image sections SectionHeader.versionDefinitions
    && SectionHeader.linkOfKindFits image sections SectionHeader.versionDefinitions
    && SectionHeader.firstOfKindFits image sections SectionHeader.versionNeeds
    && SectionHeader.linkOfKindFits image sections SectionHeader.versionNeeds

/-! ### The dynamic section -/

/-- An entry of the dynamic section. -/
structure DynamicEntry where
  /-- What the entry says. -/
  tag : Nat
  /-- A number or an address. -/
  value : Nat
  deriving DecidableEq, Repr

namespace DynamicEntry

/-- Read an entry. -/
def reader (e : Encoding) : FieldReader DynamicEntry := do
  let tag ← .address e
  let value ← .address e
  return { tag, value }

/-- The entries of a dynamic section up to one with tag zero. -/
def list? (e : Encoding) (bytes : List UInt8) : Option (List DynamicEntry) :=
  let size := 2 * e.addressBytes
  (records? (reader e) bytes 0 size (bytes.length / size)).map (·.takeWhile (·.tag ≠ 0))

/-- The value of the last entry with a tag. -/
def last? (entries : List DynamicEntry) (tag : Nat) : Option Nat :=
  (entries.reverse.find? (·.tag = tag)).map (·.value)

/-- The value of the last entry with a tag, or zero. -/
def last (entries : List DynamicEntry) (tag : Nat) : Nat :=
  (last? entries tag).getD 0

end DynamicEntry

/-- The place in the image of an address in memory. -/
def fileOffset? (programs : List ProgramHeader) (address : Nat) : Option Nat :=
  (programs.find? fun h =>
    h.kind = ProgramHeader.load && h.address ≤ address && address - h.address < h.memorySize).bind
      fun h =>
        let offset := h.offset + (address - h.address)
        if offset < addressLimit then some offset else none

/-- The greatest of the numbers in `count` consecutive words. -/
def greatestWord? (e : Encoding) (image : List UInt8) (offset : Nat) : (count : Nat) → Option Nat
  | 0 => some 0
  | count + 1 => do
    let word ← numberAt? e image offset 4
    let greatest ← greatestWord? e image (offset + 4) count
    some (max word greatest)

/-- The number of words from an offset on up to the first odd one. -/
def wordsToOdd? (e : Encoding) (image : List UInt8) (offset : Nat) : (limit : Nat) → Option Nat
  | 0 => none
  | limit + 1 => do
    let word ← numberAt? e image offset 4
    if word % 2 = 1 then some 1
    else (wordsToOdd? e image (offset + 4) limit).map (· + 1)

/-- The number of symbols that a table of hashed names of the newer form covers: up to the end of
the chain of the last bucket. -/
def bucketSymbols? (e : Encoding) (image : List UInt8) (offset : Nat) : Option Nat := do
  let buckets ← numberAt? e image offset 4
  let firstSymbol ← numberAt? e image (offset + 4) 4
  let filterWords ← numberAt? e image (offset + 8) 4
  if buckets = 0 ∨ firstSymbol = 0 ∨ filterWords = 0 then none
  else
    let bucketsAt := offset + 16 + filterWords * e.addressBytes
    let last ← greatestWord? e image bucketsAt buckets
    if last < firstSymbol then some 0
    else
      let chainAt := bucketsAt + buckets * 4 + (last - firstSymbol) * 4
      (wordsToOdd? e image chainAt image.length).map (last + ·)

/-- The number of symbols that a table of hashed names of the older form covers. Two processors have
wide words in it. -/
def chainSymbols? (e : Encoding) (image : List UInt8) (machine offset : Nat) : Option Nat :=
  numberAt? e image (offset + 4) (if (machine = 0x9026 ∨ machine = 22) ∧ e.wide then 8 else 4)

/-- The greatest index of a symbol in a table of relocations. -/
def greatestSymbol? (e : Encoding) (image : List UInt8) (offset size : Nat) (addend : Bool) :
    Option Nat :=
  if size = 0 then some 0
  else do
    let bytes ← slice? image offset size
    let entry := relocationSize e addend
    let symbols ← (List.range (bytes.length / entry)).mapM fun i =>
      (numberAt? e bytes (i * entry + e.addressBytes) e.addressBytes).map
        (· / if e.wide then 0x100000000 else 0x100)
    some (symbols.foldl max 0)

/-- Whether every table that the entries of a dynamic section name lies in the image. -/
def dynamicEntriesFit (e : Encoding) (image : List UInt8) (machine : Nat)
    (programs : List ProgramHeader) (entries : List DynamicEntry) : Bool :=
  let number (tag : Nat) : Nat := DynamicEntry.last entries tag
  let place? (tag : Nat) : Option Nat :=
    (DynamicEntry.last? entries tag).bind (fileOffset? programs)
  let place (tag : Nat) : Nat := (place? tag).getD 0
  let names := stringsFit image (place 5) (number 10)
  let symbols? : Option Nat := do
    let added ← greatestSymbol? e image (place 7) (number 8) true
    let plain ← greatestSymbol? e image (place 17) (number 18) false
    let lazily ← greatestSymbol? e image (place 23) (number 2) (number 20 = 7)
    let hashed ←
      match place? 0x6ffffef5, place? 4 with
      | some offset, _ => bucketSymbols? e image offset
      | none, some offset => chainSymbols? e image machine offset
      | none, none => some 0
    let greatest := max added (max plain lazily)
    some (if greatest = 0 then hashed else max hashed (greatest + 1))
  names && symbols?.any fun count => sliceFits image (place 6) (count * symbolSize e)

/-- Whether the dynamic section, if there is one, and every table that it names lie in the image. -/
def dynamicTablesFit (e : Encoding) (image : List UInt8) (machine : Nat)
    (programs : List ProgramHeader) : Bool :=
  match programs.find? (·.kind = ProgramHeader.dynamic) with
  | none => true
  | some h =>
    if h.fileSize = 0 then dynamicEntriesFit e image machine programs []
    else
      ((slice? image h.offset h.fileSize).bind (DynamicEntry.list? e)).any
        (dynamicEntriesFit e image machine programs)

end LongMode.Elf
