import LongMode.Linux.Kernel

/-!
Calls on the page table: the break of the heap, mapping, unmapping and protecting. Only memory that
is backed by no file can be mapped.
-/

set_option autoImplicit false
set_option relaxedAutoImplicit false

namespace LongMode.Linux.Call

/-- Move the break; the result is the break afterwards. A break outside of the heap's limits, or one
that the heap cannot grow to, leaves everything as it is. -/
def moveBreak (a : Address) : Call Word := do
  let heap := (← kernel).heap
  let accept : Call Word := do
    modifyKernel fun k => { k with heap := { k.heap with current := a } }
    return a
  if a.toNat < heap.start.toNat ∨ heap.limit.toNat < a.toNat then return heap.current
  match heap.current.pageCeil?, a.pageCeil? with
  | some oldEnd, some newEnd =>
    if oldEnd.toNat < newEnd.toNat then
      match (← get).memory.map oldEnd (newEnd.toNat - oldEnd.toNat) .readWrite .anonymous with
      | .ok (_, memory) =>
        modify fun c => { c with memory }
        accept
      | .error _ => return heap.current
    else if newEnd.toNat < oldEnd.toNat then
      match (← get).memory.discard newEnd (oldEnd.toNat - newEnd.toNat) with
      | .ok (_, memory) =>
        modify fun c => { c with memory }
        accept
      | .error _ => accept
    else accept
  | _, _ => return heap.current

/-! ### Mapping -/

/-- How new pages are shared with other processes. -/
inductive Sharing where
  | isPrivate
  | isShared
  deriving DecidableEq, Repr

/-- Where new pages are to go. -/
inductive Placement where
  /-- At the address, if that is possible. -/
  | hint
  /-- At the address, in place of what is there. -/
  | replace
  /-- At the address, which has to be free. -/
  | vacant
  deriving DecidableEq, Repr

/-- The placement that the flags of a mapping ask for. -/
def Placement.ofFlags (flags : Word) : Placement :=
  if flags.getLsbD 20 then .vacant else if flags.getLsbD 4 then .replace else .hint

/-- The sharing that the flags of a mapping ask for: exactly one of the two kinds. -/
def Sharing.ofFlags? (flags : Word) : Option Sharing :=
  match flags.getLsbD 0, flags.getLsbD 1 with
  | true, false => some .isShared
  | false, true => some .isPrivate
  | _, _ => none

/-- Map pages with an operation that says where. -/
def mapWith (f : Memory → Except MapError (Region × Memory)) : Call Word := do
  let (region, memory) ← orFail .ofMapError (f (← get).memory)
  modify fun c => { c with memory }
  return Address.ofPage region.first

/-- What new pages are filled with. -/
def freshBacking (length : Nat) : Sharing → Call Backing
  | .isPrivate => return .anonymous
  | .isShared => do
    let (frames, memory) ← orFail (fun _ => .enomem) ((← get).memory.shareFrames length)
    modify fun c => { c with memory }
    return .shared frames

/-- Put new pages where a placement says; the result is their address. -/
def placePages (a : Address) (length : Nat) (permissions : Permissions) (backing : Backing)
    (placement : Placement) : Call Word := do
  let map (m : Memory) : Except MapError (Region × Memory) :=
    m.map a length permissions backing
  if placement ≠ .hint ∧ !a.isPageAligned then throw .einval
  match placement with
  | .vacant =>
    if (← get).memory.isFree a length then mapWith map else throw .eexist
  | .replace =>
    changePages fun m => (m.discard a length).map (·.2)
    mapWith map
  | .hint =>
    if a ≠ 0 ∧ a.isPageAligned ∧ (← get).memory.isFree a length then mapWith map
    else mapWith fun m => m.mapAnywhere length permissions backing

/-- Map pages of zeros; the result is their address. -/
def mapPages (a : Address) (length protection flags file : Word) : Call Word := do
  if length = 0 then throw .einval
  if addressLimit ≤ length.toNat + (pageSize - 1) then throw .enomem
  let length := roundUpToPage length.toNat
  if !flags.getLsbD 5 then throw (if file.toInt < 0 then .ebadf else .enodev)
  let some sharing := Sharing.ofFlags? flags | throw .einval
  let backing ← freshBacking length sharing
  placePages a length (.ofProtection protection.toNat) backing (.ofFlags flags)

/-- Remove the mapped pages of a range. -/
def unmapPages (a : Address) (length : Word) : Call Word := do
  if !a.isPageAligned ∨ length = 0 then throw .einval
  changePages fun m => (m.discard a length.toNat).map (·.2)
  return 0

/-- Change the permissions of a range that is mapped throughout. -/
def protectPages (a : Address) (length protection : Word) : Call Word := do
  if !a.isPageAligned then throw .einval
  if length ≠ 0 then
    changePages fun m => m.protect a length.toNat (.ofProtection protection.toNat)
  return 0

end LongMode.Linux.Call
