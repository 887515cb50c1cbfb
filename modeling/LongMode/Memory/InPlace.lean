import LongMode.Memory.Atomic

/-!
Operations on memory as they are carried out: in place, page by page, and with addresses that are
words of 64 bits. A check walks from page to page; a load or a store goes in chunks and looks each
page up again; an indivisible update handles a cell within a page, a cell over two pages that share
a frame, and a cell over two frames each in its own way; a new mapping enters its pages one after
the other, and pages are removed or protected one after the other. The regions of a page table are
put together from its pages in the same way, each page extending the region before it or beginning
one.

An operation that stops half way leaves what it had done by then. That it never does, and that it
comes to what `Memory.check`, `Memory.read`, `Memory.write`, `Memory.atomicUpdate`, `Memory.map`,
`Memory.mapAnywhere`, `Memory.unmap`, `Memory.discard`, `Memory.protect` and `AddressSpace.regions`
say at once, is not built in here.
-/

set_option autoImplicit false
set_option relaxedAutoImplicit false

namespace LongMode

namespace Memory

/-! ### Walks -/

/-- Visit the pages from one to that of `last`, and refuse at the first that is missing or, if
permissions are enforced, forbids the access. No answer means that a sum left the range of words. -/
def walk (m : Memory) (access : Access) (enforce : Bool) (start last : Address) (page : Address) :
    Option (Except MemoryFault Unit) :=
  let culprit := if page < start then start else page
  match m.page? page with
  | none => some (.error (.unmapped culprit access))
  | some p =>
    if enforce && !p.permissions.allows access then some (.error (.denied culprit access))
    else if page = last.pageFloor then some (.ok ())
    else if page.toNat + pageSize < addressLimit then
      m.walk access enforce start last (page + BitVec.ofNat 64 pageSize)
    else none
termination_by addressLimit - page.toNat
decreasing_by
  have hnext : (page + BitVec.ofNat 64 pageSize).toNat = page.toNat + pageSize := by
    rw [BitVec.toNat_add, BitVec.toNat_ofNat, Nat.add_mod_mod]
    exact Nat.mod_eq_of_lt ‹_›
  rw [hnext]
  exact Nat.sub_lt_sub_left (Nat.lt_of_le_of_lt (Nat.le_add_right _ _) ‹_›)
    (Nat.lt_add_of_pos_right (by decide))

/-- Walk along the pages of a range. -/
def walkRange (m : Memory) (access : Access) (enforce : Bool) (start : Address) (length : Nat) :
    Option (Except MemoryFault Unit) :=
  if length = 0 then some (.ok ())
  else if addressLimit ≤ start.toNat + (length - 1) then some (.error (.unmapped start access))
  else m.walk access enforce start (start + BitVec.ofNat 64 (length - 1)) start.pageFloor

/-- The page of a given number, provided it permits an access; a refusal blames its first
address. -/
def lookUp (m : Memory) (access : Access) (number : Nat) : Except MemoryFault Page :=
  match m.space.pages[number]? with
  | none => .error (.unmapped (.ofPage number) access)
  | some p =>
    if p.permissions.allows access then .ok p else .error (.denied (.ofPage number) access)

/-- Cut a byte string at page boundaries, from an address on that wraps at 2^64. -/
def chunks (a : Address) (bytes : List UInt8) : List Piece :=
  if bytes.isEmpty then []
  else
    let now := min (pageSize - a.pageOffset) bytes.length
    ⟨a.page, a.pageOffset, bytes.take now⟩ :: chunks (a + BitVec.ofNat 64 now) (bytes.drop now)
termination_by bytes.length
decreasing_by
  have hoffset : a.pageOffset < pageSize := Nat.mod_lt _ (by decide)
  have hlength : bytes.length ≠ 0 := by simpa using ‹¬bytes.isEmpty = true›
  rw [List.length_drop]
  omega

end Memory

namespace AddressSpace

/-! ### Gaps -/

/-- Move a cursor past the mapped pages that are in the way of `length` free bytes. The pages are
given by their first addresses, in ascending order. -/
def seek (length : Nat) : (cursor : Address) → List Address → Option Address
  | cursor, [] => some cursor
  | cursor, base :: rest =>
    if addressLimit ≤ cursor.toNat + length then none
    else if cursor + BitVec.ofNat 64 length ≤ base then some cursor
    else
      let behind := base + BitVec.ofNat 64 pageSize
      seek length (if cursor < behind then behind else cursor) rest

/-- The lowest page boundary in the mapping window from which `length` bytes are free. -/
def seekFit? (s : AddressSpace) (length : Nat) : Option Address := do
  let base ← s.window.base.pageCeil?
  if s.window.stop ≤ base then none
  let mapped := s.pages.keys.filter fun page =>
    base.page ≤ page && page * pageSize < s.window.stop.toNat
  let cursor ← seek length base (mapped.map .ofPage)
  if addressLimit ≤ cursor.toNat + length then none
  else if cursor + BitVec.ofNat 64 length ≤ s.window.stop then some cursor else none

end AddressSpace

/-! ### Regions -/

/-- A region by its addresses. -/
structure Extent where
  /-- The first address. -/
  start : Address
  /-- The first address behind it. -/
  stop : Address
  /-- What the pages have in common. -/
  attributes : PageAttributes
  deriving DecidableEq, Repr

namespace Extent

/-- Whether an address lies in a region. -/
def contains (e : Extent) (a : Address) : Bool :=
  e.start ≤ a && a < e.stop

/-- Take up a page that comes behind the regions reported so far, of which the latest is the head:
the latest is extended if it ends where the page begins and agrees with it, and otherwise a region
begins. No answer means that the end of the page left the range of words. -/
def report (reported : List Extent) (base : Address) (p : Page) : Option (List Extent) :=
  if base.toNat + pageSize < addressLimit then
    let stop := base + BitVec.ofNat 64 pageSize
    match reported with
    | [] => some [⟨base, stop, p.attributes⟩]
    | last :: earlier =>
      if last.stop = base ∧ last.attributes = p.attributes then
        some ({ last with stop } :: earlier)
      else some (⟨base, stop, p.attributes⟩ :: last :: earlier)
  else none

end Extent

namespace AddressSpace

/-- The mapped pages by their first addresses, in order. -/
def entries (s : AddressSpace) : List (Address × Page) :=
  s.pages.toList.map fun (number, p) => (.ofPage number, p)

/-- The mapped regions in address order, put together page by page. -/
def extents? (s : AddressSpace) : Option (List Extent) :=
  (s.entries.foldlM (fun reported (base, p) => Extent.report reported base p) []).map List.reverse

/-! ### Ranges of pages -/

/-- Where the pages end that hold `length` bytes from a page boundary on. -/
def pagesEnd (start : Address) (length : Nat) : Except MapError Address :=
  if !start.isPageAligned then .error (.unaligned start)
  else if length = 0 || addressLimit ≤ length + (pageSize - 1) then
    .error (.invalidLength start length)
  else if addressLimit ≤ start.toNat + roundUpToPage length then
    .error (.invalidLength start length)
  else .ok (start + BitVec.ofNat 64 (roundUpToPage length))

/-- The first addresses of the mapped pages between two page boundaries, in order. -/
def bases (s : AddressSpace) (start stop : Address) : List Address :=
  (s.pages.keys.filter fun page => start.page ≤ page && page * pageSize < stop.toNat).map .ofPage

/-- The lowest page boundary, from the expected one on and before `stop`, that is missing from an
ascending list. -/
def seekHole (stop : Address) : (expected : Address) → List Address → Option Address
  | expected, [] => if expected < stop then some expected else none
  | expected, base :: rest =>
    if base = expected then seekHole stop (expected + BitVec.ofNat 64 pageSize) rest
    else some expected

end AddressSpace

/-- An operation on memory in place. -/
abbrev InPlace (ε : Type) : Type → Type :=
  ExceptT ε (StateM Memory)

namespace InPlace

/-- Change the frames. -/
def modifyFrames {ε : Type} (f : FrameStore → FrameStore) : InPlace ε Unit :=
  modify fun m => { m with frames := f m.frames }

/-! ### Loads and stores -/

/-- Load as many bytes as a chunk has, from where it lies. -/
def readChunk (chunk : Memory.Piece) : InPlace MemoryFault (List UInt8) := do
  let p ← liftM ((← get).lookUp .read chunk.page)
  return ((← get).frames.frame p.frame).slice chunk.offset chunk.bytes.length

/-- Store a chunk. -/
def writeChunk (chunk : Memory.Piece) : InPlace MemoryFault Unit := do
  let p ← liftM ((← get).lookUp .write chunk.page)
  modifyFrames fun frames => frames.write p.frame chunk.offset chunk.bytes

/-- Load bytes from a readable range: a buffer of their number is filled chunk by chunk. -/
def read (a : Address) (count : Nat) : InPlace MemoryFault (List UInt8) := do
  liftM ((← get).check .read a count)
  return (← (Memory.chunks a (List.replicate count 0)).mapM readChunk).flatten

/-- Store bytes in a writable range, chunk by chunk. -/
def write (a : Address) (bytes : List UInt8) : InPlace MemoryFault Unit := do
  liftM ((← get).check .write a bytes.length)
  (Memory.chunks a bytes).forM writeChunk

/-- Load a word of `size` bytes. -/
def readWord (a : Address) (size : Nat) : InPlace MemoryFault (BitVec (8 * size)) := do
  return BitVec.ofNat (8 * size) (LittleEndian.toNat (← read a size))

/-- Store a chunk, whatever the permissions of its page. -/
def pokeChunk (chunk : Memory.Piece) : InPlace MemoryFault Unit := do
  match (← get).space.pages[chunk.page]? with
  | some p => modifyFrames fun frames => frames.write p.frame chunk.offset chunk.bytes
  | none => throw (.unmapped (.ofPage chunk.page) .write)

/-- Store bytes in a mapped range whatever its permissions, chunk by chunk. -/
def poke (a : Address) (bytes : List UInt8) : InPlace MemoryFault Unit := do
  liftM ((← get).checkRange .write false a bytes.length)
  (Memory.chunks a bytes).forM pokeChunk

/-- Store a word of `size` bytes. -/
def writeWord (a : Address) (size : Nat) (value : BitVec (8 * size)) : InPlace MemoryFault Unit :=
  write a (LittleEndian.ofNat size value.toNat)

/-! ### Indivisible updates -/

section Update

variable {α : Type} {size : Nat} (f : BitVec (8 * size) → BitVec (8 * size) × α)

/-- Update a cell of which the bytes are at hand, and store the new ones if the cell changes. -/
def exchange (bytes : List UInt8) (put : List UInt8 → FrameStore → FrameStore) :
    InPlace MemoryFault α := do
  let old := BitVec.ofNat (8 * size) (LittleEndian.toNat bytes)
  let (new, result) := f old
  if new ≠ old then modifyFrames (put (LittleEndian.ofNat size new.toNat))
  return result

/-- Update a cell that lies in one page. -/
def updateWithin (id : FrameId) (offset : Nat) : InPlace MemoryFault α := do
  let frame := (← get).frames.frame id
  exchange f (frame.slice offset size) fun bytes frames => (frames.put id offset bytes).bump id

/-- Update a cell of which the first `head` bytes end a page and the others begin the next, where
both pages have the same frame. -/
def updateFolded (id : FrameId) (offset head : Nat) : InPlace MemoryFault α := do
  let frame := (← get).frames.frame id
  exchange f (frame.slice offset head ++ frame.slice 0 (size - head)) fun bytes frames =>
    ((frames.put id offset (bytes.take head)).put id 0 (bytes.drop head)).bump id

/-- Update a cell of which the first `head` bytes end one frame and the others begin another. -/
def updateAcross (low high : FrameId) (offset head : Nat) : InPlace MemoryFault α := do
  let frames := (← get).frames
  exchange f ((frames.frame low).slice offset head ++ (frames.frame high).slice 0 (size - head))
    fun bytes frames =>
      (((frames.put low offset (bytes.take head)).put high 0 (bytes.drop head)).bump low).bump high

/-- Replace the cell of `size` bytes at an address by the first component of `f` at its old value,
and return the second. -/
def update (a : Address) : InPlace MemoryFault α := do
  liftM ((← get).check .read a size)
  liftM ((← get).check .write a size)
  let first ← liftM ((← get).lookUp .write a.page)
  let head := min (pageSize - a.pageOffset) size
  if head = size then updateWithin f first.frame a.pageOffset
  else
    let second ← liftM ((← get).lookUp .write (a.pageFloor + BitVec.ofNat 64 pageSize).page)
    if first.frame = second.frame then updateFolded f first.frame a.pageOffset head
    else updateAcross f first.frame second.frame a.pageOffset head

/-- `update` of a cell that has to lie at a multiple of `alignment`. -/
def updateAligned (a : Address) (alignment : Nat) : InPlace MemoryFault α :=
  if 1 < alignment ∧ a.toNat % alignment ≠ 0 then throw (.misaligned a alignment)
  else update f a

end Update

/-! ### New mappings -/

/-- Enter the pages from one page boundary to another, one after the other. -/
def insertPages (start stop : Address) (p : Permissions) (backing : Backing) :
    InPlace MapError Region := do
  let count := (stop - start).toNat / pageSize
  let (first, frames) ← liftM (Memory.prepareFrames (← get).frames start count backing)
  modifyFrames fun _ => frames
  let attributes : PageAttributes := ⟨p, backing.kind, backing.name⟩
  (List.range count).forM fun i => do
    let number := (start + BitVec.ofNat 64 (i * pageSize)).page
    modify fun m => { m with
      space := { m.space with pages := m.space.pages.insert number ⟨attributes, first + i⟩ } }
  return ⟨start.page, stop.page, attributes⟩

/-- Map pages at the lowest place in the mapping window where enough of them are free. -/
def mapAnywhere (length : Nat) (p : Permissions) (backing : Backing) :
    InPlace MapError Region := do
  if length = 0 || addressLimit ≤ length + (pageSize - 1) then throw (.invalidLength 0 length)
  let rounded := roundUpToPage length
  match (← get).space.seekFit? rounded with
  | none => throw (.outOfAddressSpace rounded)
  | some start => insertPages start (start + BitVec.ofNat 64 rounded) p backing

/-- Map a range of pages, all of which have to be free. -/
def map (start : Address) (length : Nat) (p : Permissions) (backing : Backing) :
    InPlace MapError Region := do
  let stop ← liftM (AddressSpace.pagesEnd start length)
  match (← get).space.bases start stop with
  | existing :: _ => throw (.overlap start stop existing)
  | [] => insertPages start stop p backing

/-! ### Pages of a range -/

/-- Change the pages of the address space. -/
def modifyPages (f : Std.ExtTreeMap Nat Page → Std.ExtTreeMap Nat Page) : InPlace MapError Unit :=
  modify fun m => { m with space := { m.space with pages := f m.space.pages } }

/-- Remove the mapped pages between two page boundaries one after the other, and count them. -/
def removePages (start stop : Address) : InPlace MapError Nat := do
  let doomed := (← get).space.bases start stop
  doomed.forM fun base => modifyPages (·.erase base.page)
  return doomed.length

/-- Refuse pages that are not mapped throughout. -/
def requireMapped (start stop : Address) : InPlace MapError Unit := do
  match AddressSpace.seekHole stop start ((← get).space.bases start stop) with
  | some hole => throw (.notMapped start stop hole)
  | none => return

/-- Remove every page of a range that is mapped throughout. -/
def unmap (start : Address) (length : Nat) : InPlace MapError Unit := do
  let stop ← liftM (AddressSpace.pagesEnd start length)
  requireMapped start stop
  discard (removePages start stop)

/-- Remove the mapped pages of a range and count them. -/
def discardPages (start : Address) (length : Nat) : InPlace MapError Nat := do
  let stop ← liftM (AddressSpace.pagesEnd start length)
  removePages start stop

/-- Change the permissions of every page of a range that is mapped throughout, one after the
other. -/
def protect (start : Address) (length : Nat) (p : Permissions) : InPlace MapError Unit := do
  let stop ← liftM (AddressSpace.pagesEnd start length)
  requireMapped start stop
  ((← get).space.bases start stop).forM fun base =>
    modifyPages (·.modify base.page fun page => { page with attributes.permissions := p })

end InPlace

end LongMode
