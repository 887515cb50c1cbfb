import LongMode.Memory.LittleEndian
import LongMode.Memory.Space

/-!
Bytes in memory. An access is checked over its whole range before anything moves, so a refused store
has no effect; what a store changes is split at page boundaries, and each piece counts as one store
to the frame it falls in.

`Memory.byte` is the view: a load is the list of bytes at consecutive addresses.
-/

set_option autoImplicit false
set_option relaxedAutoImplicit false

namespace LongMode.Memory

/-- The byte at an address; zero where nothing is mapped. -/
def byte (m : Memory) (a : Address) : UInt8 :=
  match m.page? a with
  | some p => (m.frames.frame p.frame).get a.pageOffset
  | none => 0

/-- The bytes at `count` consecutive addresses. -/
def bytes (m : Memory) (a : Address) (count : Nat) : List UInt8 :=
  (List.range count).map fun i => m.byte (a + BitVec.ofNat 64 i)

/-- Visit `count` pages from `page` on and refuse at the first that is missing or, if permissions
are enforced, forbids the access. The address blamed is the first one of the page that is in the
range. -/
def scan (m : Memory) (access : Access) (enforce : Bool) (start : Address) (page : Nat) :
    (count : Nat) → Except MemoryFault Unit
  | 0 => .ok ()
  | count + 1 =>
    let culprit := if page * pageSize ≤ start.toNat then start else .ofPage page
    match m.space.pages[page]? with
    | none => .error (.unmapped culprit access)
    | some p =>
      if enforce && !p.permissions.allows access then .error (.denied culprit access)
      else m.scan access enforce start (page + 1) count

/-- Refuse a range that wraps, has an unmapped page or, if permissions are enforced, a page that
forbids the access. An empty range is never refused. -/
def checkRange (m : Memory) (access : Access) (enforce : Bool) (start : Address) (length : Nat) :
    Except MemoryFault Unit :=
  if length = 0 then .ok ()
  else
    let last := start.toNat + (length - 1)
    if addressLimit ≤ last then .error (.unmapped start access)
    else m.scan access enforce start start.page (last / pageSize - start.page + 1)

/-- Refuse a range of which some byte does not permit the access. -/
def check (m : Memory) (access : Access) (start : Address) (length : Nat) :
    Except MemoryFault Unit :=
  m.checkRange access true start length

/-- The part of a byte string that falls into one page. -/
structure Piece where
  /-- The page number. -/
  page : Nat
  /-- Where in the page the bytes go. -/
  offset : Nat
  /-- The bytes. -/
  bytes : List UInt8
  deriving DecidableEq, Repr

/-- Cut a byte string into at most `count` pieces at page boundaries. -/
def cut : (count page offset : Nat) → List UInt8 → List Piece
  | 0, _, _, _ => []
  | count + 1, page, offset, bytes =>
    ⟨page, offset, bytes.take (pageSize - offset)⟩
      :: cut count (page + 1) 0 (bytes.drop (pageSize - offset))

/-- The pieces of a byte string stored at an address, in address order. -/
def pieces (a : Address) (bytes : List UInt8) : List Piece :=
  if bytes.isEmpty then []
  else cut (roundUpToPage (a.pageOffset + bytes.length) / pageSize) a.page a.pageOffset bytes

/-- Store one piece in the frame behind its page; nothing happens where no page is mapped. -/
def storePiece (space : AddressSpace) (frames : FrameStore) (piece : Piece) : FrameStore :=
  match space.pages[piece.page]? with
  | some p => frames.write p.frame piece.offset piece.bytes
  | none => frames

/-- Store bytes without asking, piece by piece in address order. -/
def store (m : Memory) (a : Address) (bytes : List UInt8) : Memory :=
  { m with frames := (pieces a bytes).foldl (storePiece m.space) m.frames }

/-- Load bytes from a readable range. -/
def read (m : Memory) (a : Address) (count : Nat) : Except MemoryFault (List UInt8) := do
  m.check .read a count
  .ok (m.bytes a count)

/-- Store bytes in a writable range. -/
def write (m : Memory) (a : Address) (bytes : List UInt8) : Except MemoryFault Memory := do
  m.check .write a bytes.length
  .ok (m.store a bytes)

/-- Store bytes in a mapped range whatever its permissions, as loaders do. -/
def poke (m : Memory) (a : Address) (bytes : List UInt8) : Except MemoryFault Memory := do
  m.checkRange .write false a bytes.length
  .ok (m.store a bytes)

/-- Load a little-endian number of `count` bytes. -/
def readNat (m : Memory) (a : Address) (count : Nat) : Except MemoryFault Nat :=
  (m.read a count).map LittleEndian.toNat

/-- Store the `count` lowest bytes of a number. -/
def writeNat (m : Memory) (a : Address) (count value : Nat) : Except MemoryFault Memory :=
  m.write a (LittleEndian.ofNat count value)

/-- Load bytes up to a zero byte, which is left out, or up to `limit` of them. -/
def readString (m : Memory) (a : Address) : (limit : Nat) → Except MemoryFault (List UInt8)
  | limit => go limit a []
where
  /-- Collect the bytes in reverse. -/
  go : Nat → Address → List UInt8 → Except MemoryFault (List UInt8)
    | 0, _, collected => .ok collected.reverse
    | limit + 1, a, collected =>
      match m.read a 1 with
      | .error fault => .error fault
      | .ok bytes =>
        if bytes.headD 0 = 0 then .ok collected.reverse
        else go limit (a + 1) (bytes.headD 0 :: collected)

end LongMode.Memory
