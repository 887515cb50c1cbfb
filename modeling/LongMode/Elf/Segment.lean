import LongMode.Elf.Image
import LongMode.Memory.Data

/-!
Segments: the parts of an image as they go to memory. A segment takes whole pages. The bytes of the
image that come before it in its first page are placed too, as if the page had been mapped from the
file, and what the image does not fill is zero. Where pages are mapped already, they keep their
other bytes and take on the permissions of the later segment.
-/

set_option autoImplicit false
set_option relaxedAutoImplicit false

namespace LongMode.Elf

/-- What is wrong with a segment. -/
inductive SegmentFlaw where
  /-- The image has more bytes than the segment takes. -/
  | fileLongerThanMemory
  /-- The address passes the end of memory when it is moved. -/
  | addressOverflows
  /-- The segment passes the end of memory. -/
  | sizeOverflows
  /-- The bytes are not in the image. -/
  | dataPastImage
  /-- The last page passes the end of memory. -/
  | endPastMemory
  deriving DecidableEq, Repr

/-- The wording of a flaw. -/
def SegmentFlaw.message : SegmentFlaw → String
  | fileLongerThanMemory => "file size exceeds memory size"
  | addressOverflows => "address overflows"
  | sizeOverflows => "size overflows"
  | dataPastImage => "file data past end of image"
  | endPastMemory => "segment ends past the address space"

/-- A part of an image at its place in memory. -/
structure Segment where
  /-- The address of its first byte. -/
  address : Nat
  /-- How many bytes it takes. -/
  memorySize : Nat
  /-- Its bytes in the image. -/
  data : List UInt8
  /-- The bytes before it in its first page. -/
  lead : List UInt8
  /-- The permissions of its pages. -/
  permissions : Permissions
  deriving DecidableEq, Repr

namespace Segment

/-- The bytes that come before a segment in its first page: those of the image, or zeros if the
image has too few. -/
def leadBytes (image : List UInt8) (offset count : Nat) : List UInt8 :=
  if count ≤ offset then (image.drop (offset - count)).take count else List.replicate count 0

/-- The segment that a program header describes, moved up by `bias`. -/
def ofHeader (image : List UInt8) (bias : Nat) (h : ProgramHeader) : Except SegmentFlaw Segment :=
  let address := h.address + bias
  let stop := address + h.memorySize
  if h.memorySize < h.fileSize then .error .fileLongerThanMemory
  else if addressLimit ≤ address then .error .addressOverflows
  else if addressLimit ≤ stop then .error .sizeOverflows
  else if image.length < h.offset + h.fileSize then .error .dataPastImage
  else if addressLimit ≤ stop + (pageSize - 1) then .error .endPastMemory
  else .ok
    { address
      memorySize := h.memorySize
      data := (image.drop h.offset).take h.fileSize
      lead := leadBytes image h.offset (address % pageSize)
      permissions := .ofSegmentFlags h.flags }

/-- The pages that a segment takes. -/
def pages (s : Segment) : PageRange :=
  ⟨s.address / pageSize,
    roundUpToPage (s.address + s.memorySize) / pageSize - s.address / pageSize⟩

/-- Give a page permissions if it is mapped, and map a page of zeros with these permissions if
not. -/
def overlayPage (p : Permissions) (m : Memory) (page : Nat) : Except MapError Memory :=
  if m.space.pages.contains page then m.protect (.ofPage page) pageSize p
  else (m.map (.ofPage page) pageSize p .anonymous).map (·.2)

/-- The pages of a segment as a mapping of a file. -/
def backing (s : Segment) (name : String) : Backing :=
  .file name (s.lead ++ s.data) 0

end Segment

end LongMode.Elf
