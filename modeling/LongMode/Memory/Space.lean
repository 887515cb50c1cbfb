import LongMode.Memory.Fault
import LongMode.Memory.Frame

/-!
Address spaces. An address space is a table from page numbers to pages, and a page names the frame
behind it together with its permissions and its origin. `Memory` pairs a space with the frames of
the machine; two spaces over one frame store see each other's stores wherever they share a frame.
-/

set_option autoImplicit false
set_option relaxedAutoImplicit false

namespace LongMode

/-- Where the contents of a page came from. -/
inductive BackingKind where
  | anonymous
  | file
  | shared
  deriving DecidableEq, Repr

/-- The word for a kind of backing in reports. -/
def BackingKind.name : BackingKind → String
  | .anonymous => "Anonymous"
  | .file => "File"
  | .shared => "Shared"

/-- What neighbouring pages of one region have in common. -/
structure PageAttributes where
  /-- What may be done with the bytes of the page. -/
  permissions : Permissions
  /-- Where the contents came from. -/
  kind : BackingKind
  /-- The name of the file behind a file mapping. -/
  name : Option String
  deriving DecidableEq, Repr

/-- A mapped page. -/
structure Page where
  /-- Permissions and origin. -/
  attributes : PageAttributes
  /-- The frame that holds the bytes. -/
  frame : FrameId
  deriving DecidableEq, Repr

/-- The permissions of a page. -/
abbrev Page.permissions (p : Page) : Permissions :=
  p.attributes.permissions

/-- The part of the address space where mappings without a fixed address are placed. -/
structure MapWindow where
  /-- The lowest address handed out. -/
  base : Address := 0x700000000000
  /-- The first address past the window. -/
  stop : Address := 0x7ff000000000
  deriving DecidableEq, Repr

/-- The page table of one process and the window for its mappings. -/
structure AddressSpace where
  /-- Where mappings without a fixed address are placed. -/
  window : MapWindow := {}
  /-- The mapped pages by page number. -/
  pages : Std.ExtTreeMap Nat Page := ∅

/-- One address space over the frames of the machine. -/
structure Memory where
  /-- The frames of the machine. -/
  frames : FrameStore := {}
  /-- The address space that accesses go through. -/
  space : AddressSpace := {}

/-- A run of consecutive frames that can be mapped more than once. -/
structure SharedFrames where
  /-- The first frame. -/
  first : FrameId
  /-- The number of frames. -/
  count : Nat
  deriving DecidableEq, Repr

/-- The number of bytes in a run of frames. -/
def SharedFrames.length (s : SharedFrames) : Nat :=
  s.count * pageSize

/-- What a new mapping is filled with. -/
inductive Backing where
  /-- Zeros. -/
  | anonymous
  /-- A private copy of `data` from `offset` on, zeros past its end. -/
  | file (name : String) (data : List UInt8) (offset : Nat)
  /-- Frames that other mappings may hold too. -/
  | shared (frames : SharedFrames)

namespace Backing

/-- The kind of a backing. -/
def kind : Backing → BackingKind
  | .anonymous => .anonymous
  | .file .. => .file
  | .shared _ => .shared

/-- The name a backing gives to its pages. -/
def name : Backing → Option String
  | .file name _ _ => some name
  | _ => none

end Backing

/-- Consecutive pages: the first page number and how many there are. -/
structure PageRange where
  /-- The first page number. -/
  first : Nat
  /-- The number of pages. -/
  count : Nat
  deriving DecidableEq, Repr

namespace PageRange

/-- The page number past the last page. -/
def stop (r : PageRange) : Nat :=
  r.first + r.count

/-- Whether a page number is in the range. -/
def contains (r : PageRange) (page : Nat) : Bool :=
  r.first ≤ page && page < r.stop

/-- The pages of `[start, start + length)` with the length rounded up, provided that `start` is a
page boundary, that there is at least one page, and that neither the rounding nor the end passes
2^64. -/
def of? (start : Address) (length : Nat) : Except MapError PageRange :=
  if !start.isPageAligned then .error (.unaligned start)
  else if length = 0 || addressLimit ≤ length + (pageSize - 1) then
    .error (.invalidLength start length)
  else if addressLimit ≤ start.toNat + roundUpToPage length then
    .error (.invalidLength start length)
  else .ok ⟨start.page, roundUpToPage length / pageSize⟩

end PageRange

/-- A run of pages with equal attributes. -/
structure Region where
  /-- The first page number. -/
  first : Nat
  /-- The page number past the last page. -/
  stop : Nat
  /-- What the pages have in common. -/
  attributes : PageAttributes
  deriving DecidableEq, Repr

namespace Region

/-- The number of bytes in a region. -/
def length (r : Region) : Nat :=
  (r.stop - r.first) * pageSize

/-- Whether an address lies in a region. -/
def contains (r : Region) (a : Address) : Bool :=
  r.first ≤ a.page && a.page < r.stop

/-- The region of a single page. -/
def ofPage (entry : Nat × Page) : Region :=
  ⟨entry.1, entry.1 + 1, entry.2.attributes⟩

/-- Put a region in front of a list of later ones, merged with the head if they touch and agree. -/
def prepend (r : Region) : List Region → List Region
  | [] => [r]
  | s :: rest =>
    if r.stop = s.first ∧ r.attributes = s.attributes then { r with stop := s.stop } :: rest
    else r :: s :: rest

end Region

/-- A page as seen from outside: its number, its attributes and the version of its frame. -/
structure PageView where
  /-- The page number. -/
  page : Nat
  /-- Permissions and origin. -/
  attributes : PageAttributes
  /-- How many stores the frame behind the page has seen. -/
  version : Nat
  deriving DecidableEq, Repr

namespace AddressSpace

/-- The lowest mapped page of a range. -/
def firstMapped? (s : AddressSpace) (r : PageRange) : Option Nat :=
  (s.pages.getKeyGE? r.first).filter (· < r.stop)

/-- The lowest of `count` pages from `page` on that is not mapped. -/
def firstHole? (s : AddressSpace) (page : Nat) : (count : Nat) → Option Nat
  | 0 => none
  | count + 1 =>
    if s.pages.contains page then s.firstHole? (page + 1) count else some page

/-- Remove the pages of a range; pages that are not mapped are passed over. -/
def removePages (s : AddressSpace) (r : PageRange) : AddressSpace :=
  { s with pages := s.pages.filter fun page _ => !r.contains page }

/-- Give every mapped page of a range new permissions. -/
def setPermissions (s : AddressSpace) (r : PageRange) (p : Permissions) : AddressSpace :=
  { s with pages := s.pages.map fun number page =>
      if r.contains number then { page with attributes.permissions := p } else page }

/-- The mapped regions in address order; neighbours with equal attributes are one region. -/
def regions (s : AddressSpace) : List Region :=
  (s.pages.toList.map Region.ofPage).foldr Region.prepend []

/-- Move a candidate page number past the mapped pages that are in the way of `count` free pages. -/
def skipMapped (count : Nat) : (candidate : Nat) → List Nat → Nat
  | candidate, [] => candidate
  | candidate, page :: rest =>
    if candidate + count ≤ page then candidate
    else skipMapped count (max candidate (page + 1)) rest

/-- The lowest page number in the mapping window from which `count` pages are free. -/
def firstFit? (s : AddressSpace) (count : Nat) : Option Nat := do
  let base ← s.window.base.pageCeil?
  let stop := s.window.stop.toNat
  if stop ≤ base.toNat then none
  let mapped := s.pages.keys.filter fun page => base.page ≤ page && page * pageSize < stop
  let found := skipMapped count base.page mapped
  if (found + count) * pageSize ≤ stop then some found else none

end AddressSpace

namespace Memory

/-- The page that holds an address. -/
def page? (m : Memory) (a : Address) : Option Page :=
  m.space.pages[a.page]?

/-- The page that holds an address, as seen from outside. -/
def pageView? (m : Memory) (a : Address) : Option PageView :=
  (m.page? a).map fun p => ⟨a.page, p.attributes, (m.frames.frame p.frame).version⟩

/-- Fresh frames that other mappings may share; the length is rounded up to whole pages. -/
def shareFrames (m : Memory) (length : Nat) : Except MapError (SharedFrames × Memory) :=
  if length = 0 || addressLimit ≤ length + (pageSize - 1) then .error (.invalidLength 0 length)
  else
    let count := roundUpToPage length / pageSize
    let (first, frames) := m.frames.allocate count
    .ok (⟨first, count⟩, { m with frames })

/-- The frames for `count` pages at `start`: the first of them, and the store they are in. Shared
frames have to be at least as many as the pages. -/
def prepareFrames (frames : FrameStore) (start : Address) (count : Nat) :
    Backing → Except MapError (FrameId × FrameStore)
  | .anonymous => .ok (frames.allocate count)
  | .file _ data offset =>
    let (first, frames) := frames.allocate count
    .ok (first, (List.range count).foldl (fun frames i =>
      frames.insert (first + i)
        (.ofBytes ((data.drop (offset + i * pageSize)).take pageSize))) frames)
  | .shared shared =>
    if shared.count < count then .error (.invalidLength start (count * pageSize))
    else .ok (shared.first, frames)

/-- Enter the pages of a free range into the table. -/
def insertPages (m : Memory) (r : PageRange) (p : Permissions) (backing : Backing) :
    Except MapError (Region × Memory) := do
  let (first, frames) ← prepareFrames m.frames (.ofPage r.first) r.count backing
  let attributes : PageAttributes := ⟨p, backing.kind, backing.name⟩
  let pages := (List.range r.count).foldl
    (fun pages i => pages.insert (r.first + i) ⟨attributes, first + i⟩) m.space.pages
  .ok (⟨r.first, r.stop, attributes⟩, { frames, space := { m.space with pages } })

/-- Map a range of pages, all of which have to be free. -/
def map (m : Memory) (start : Address) (length : Nat) (p : Permissions) (backing : Backing) :
    Except MapError (Region × Memory) := do
  let r ← PageRange.of? start length
  match m.space.firstMapped? r with
  | some existing => .error (.overlap start (.ofPage r.stop) (.ofPage existing))
  | none => m.insertPages r p backing

/-- Map pages at the lowest place in the mapping window where enough of them are free. -/
def mapAnywhere (m : Memory) (length : Nat) (p : Permissions) (backing : Backing) :
    Except MapError (Region × Memory) :=
  if length = 0 || addressLimit ≤ length + (pageSize - 1) then .error (.invalidLength 0 length)
  else
    let count := roundUpToPage length / pageSize
    match m.space.firstFit? count with
    | none => .error (.outOfAddressSpace (count * pageSize))
    | some first => m.insertPages ⟨first, count⟩ p backing

/-- Refuse a range that is not mapped throughout. -/
def requireMapped (m : Memory) (start : Address) (r : PageRange) : Except MapError Unit :=
  match m.space.firstHole? r.first r.count with
  | some hole => .error (.notMapped start (.ofPage r.stop) (.ofPage hole))
  | none => .ok ()

/-- Remove every page of a range that is mapped throughout. -/
def unmap (m : Memory) (start : Address) (length : Nat) : Except MapError Memory := do
  let r ← PageRange.of? start length
  m.requireMapped start r
  .ok { m with space := m.space.removePages r }

/-- Remove the mapped pages of a range and count them. -/
def discard (m : Memory) (start : Address) (length : Nat) : Except MapError (Nat × Memory) := do
  let r ← PageRange.of? start length
  let space := m.space.removePages r
  .ok (m.space.pages.size - space.pages.size, { m with space })

/-- Change the permissions of every page of a range that is mapped throughout. -/
def protect (m : Memory) (start : Address) (length : Nat) (p : Permissions) :
    Except MapError Memory := do
  let r ← PageRange.of? start length
  m.requireMapped start r
  .ok { m with space := m.space.setPermissions r p }

/-- Whether a range is well formed and holds no mapped page. -/
def isFree (m : Memory) (start : Address) (length : Nat) : Bool :=
  match PageRange.of? start length with
  | .ok r => (m.space.firstMapped? r).isNone
  | .error _ => false

end Memory

end LongMode
