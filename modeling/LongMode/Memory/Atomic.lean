import LongMode.Memory.Data

/-!
Indivisible read-modify-write of one cell of at most 16 bytes. The cell has to be readable and
writable; it may straddle two pages, and the two pages may share a frame. The version of a frame
moves only when the cell changes, once for each frame the cell touches.
-/

set_option autoImplicit false
set_option relaxedAutoImplicit false

namespace LongMode.Memory

/-- Change bytes of one piece without counting a store. -/
def putPiece (space : AddressSpace) (frames : FrameStore) (piece : Piece) : FrameStore :=
  match space.pages[piece.page]? with
  | some p => frames.put p.frame piece.offset piece.bytes
  | none => frames

/-- The frames that the pieces of a cell fall into, each once. -/
def framesOf (space : AddressSpace) (pieces : List Piece) : List FrameId :=
  (pieces.filterMap fun piece => (space.pages[piece.page]?).map Page.frame).eraseDups

/-- Change the bytes of a cell and count one store for each frame that it touches. -/
def storeCell (m : Memory) (a : Address) (bytes : List UInt8) : Memory :=
  let parts := pieces a bytes
  let frames := parts.foldl (putPiece m.space) m.frames
  { m with frames := (framesOf m.space parts).foldl FrameStore.bump frames }

/-- Replace the cell of `size` bytes at an address by the first component of `f` at its old value,
and return the second. Reading is checked before writing. -/
def atomicUpdate {α : Type} (m : Memory) (a : Address) (size : Nat)
    (f : BitVec (8 * size) → BitVec (8 * size) × α) : Except MemoryFault (α × Memory) := do
  m.check .read a size
  m.check .write a size
  let old := BitVec.ofNat (8 * size) (LittleEndian.toNat (m.bytes a size))
  let (new, result) := f old
  if new = old then .ok (result, m)
  else .ok (result, m.storeCell a (LittleEndian.ofNat size new.toNat))

/-- `atomicUpdate` of a cell that has to lie at a multiple of `alignment`. -/
def atomicUpdateAligned {α : Type} (m : Memory) (a : Address) (size alignment : Nat)
    (f : BitVec (8 * size) → BitVec (8 * size) × α) : Except MemoryFault (α × Memory) :=
  if 1 < alignment ∧ a.toNat % alignment ≠ 0 then .error (.misaligned a alignment)
  else m.atomicUpdate a size f

end LongMode.Memory
