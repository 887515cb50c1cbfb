import LongMode.Memory.Data

/-!
Fetching code, and stamps that tell whether fetched bytes are still current. A stamp names the
frames that the bytes came from together with their versions; a range of at most one page touches at
most two frames. Two equal stamps mean that the same frames back the range and that neither was
stored to in between.
-/

set_option autoImplicit false
set_option relaxedAutoImplicit false

namespace LongMode

/-- A frame at one point of its history. -/
structure FrameStamp where
  /-- The frame. -/
  frame : FrameId
  /-- The number of stores it had seen. -/
  version : Nat
  deriving DecidableEq, Repr

/-- The identity of the bytes of a short range of code. -/
structure CodeStamp where
  /-- The frame of the first byte. -/
  first : FrameStamp
  /-- The frame of the next page, if the range reaches it. -/
  second : Option FrameStamp
  deriving DecidableEq, Repr

/-- Whether `count` bytes from an address on reach into the next page. -/
def crossesPage (a : Address) (count : Nat) : Bool :=
  pageSize < a.pageOffset + count

/-- The stamp of the first `count` bytes of a stamped range that begins at `a`. -/
def CodeStamp.restrict (s : CodeStamp) (a : Address) (count : Nat) : CodeStamp :=
  { s with second := if crossesPage a count then s.second else none }

namespace Memory

/-- The page of a given number, provided it is executable; a refusal blames `culprit`. -/
def executablePage (m : Memory) (number : Nat) (culprit : Address) : Except MemoryFault Page :=
  match m.space.pages[number]? with
  | none => .error (.unmapped culprit .execute)
  | some p => if p.permissions.execute then .ok p else .error (.denied culprit .execute)

/-- The present stamp of a frame. -/
def stampOf (m : Memory) (id : FrameId) : FrameStamp :=
  ⟨id, (m.frames.frame id).version⟩

/-- The executable bytes from an address on, at most `window` of them, with their stamp. Fails only
if the first byte cannot be executed, and ends with the page if the next one cannot be executed.
These two pages are all that is looked at. A window is meant to be no longer than a page; what a
longer one asks for beyond the second page is filled up with zeros, as a page reads that was never
stored to. -/
def fetch (m : Memory) (a : Address) (window : Nat) :
    Except MemoryFault (List UInt8 × CodeStamp) := do
  let p ← m.executablePage a.page a
  let first := m.stampOf p.frame
  let head := min (pageSize - a.pageOffset) window
  let bytes := (m.frames.frame p.frame).slice a.pageOffset head
  if head = window then .ok (bytes, ⟨first, none⟩)
  else
    match m.executablePage (a.page + 1) (.ofPage (a.page + 1)) with
    | .ok next =>
      let rest := (m.frames.frame next.frame).slice 0 (window - head)
      .ok (bytes ++ rest, ⟨first, some (m.stampOf next.frame)⟩)
    | .error _ => .ok (bytes, ⟨first, none⟩)

/-- The present stamp of `count` executable bytes, at most one page of them. -/
def codeStamp (m : Memory) (a : Address) (count : Nat) : Except MemoryFault CodeStamp := do
  let p ← m.executablePage a.page a
  let first := m.stampOf p.frame
  if crossesPage a count then
    let next ← m.executablePage (a.pageFloor + BitVec.ofNat 64 pageSize).page
      (a.pageFloor + BitVec.ofNat 64 pageSize)
    .ok ⟨first, some (m.stampOf next.frame)⟩
  else .ok ⟨first, none⟩

end Memory

end LongMode
