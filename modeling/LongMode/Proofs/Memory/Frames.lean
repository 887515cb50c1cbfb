import LongMode.Memory.Frame
import Mathlib.Logic.Function.Basic

/-!
What the operations on frames do to the frame behind every number. A store changes the frame it
names and no other, it replaces the bytes from its offset on one after the other, and it counts.

The bytes of all frames together are `FrameStore.contents`, a function of frame and offset; a store
of a byte string is the fold of one-byte updates in ascending order (`contents_put`).
-/

set_option autoImplicit false
set_option relaxedAutoImplicit false

namespace LongMode

namespace Frame

/-- The byte of a frame inside its page. -/
theorem get_eq_getElem (f : Frame) {k : Nat} (h : k < pageSize) : f.get k = f.bytes[k] := by
  simp [get, Vector.getElem?_eq_getElem h]

/-- Outside of its page a frame has zeros. -/
theorem get_of_le (f : Frame) {k : Nat} (h : pageSize ≤ k) : f.get k = 0 := by
  simp [get, Vector.getElem?_eq_none h]

@[simp] theorem get_zeroed (k : Nat) : zeroed.get k = 0 := by
  by_cases h : k < pageSize
  · simp [get_eq_getElem _ h, zeroed, zeroBytes]
  · exact get_of_le _ (Nat.le_of_not_lt h)

/-- The bytes laid over a page replace those from the offset on, as far as the page goes. -/
theorem getElem_overlay (contents : Vector UInt8 pageSize) (offset : Nat) (bytes : List UInt8)
    {k : Nat} (h : k < pageSize) :
    (overlay contents offset bytes)[k] =
      if offset ≤ k then bytes.getD (k - offset) contents[k] else contents[k] := by
  induction bytes generalizing contents offset with
  | nil => simp [overlay]
  | cons b bs ih =>
    rw [overlay, ih, Vector.getElem_setIfInBounds]
    rcases Nat.lt_trichotomy offset k with hlt | rfl | hgt
    · have hne : offset ≠ k := Nat.ne_of_lt hlt
      obtain ⟨d, rfl⟩ : ∃ d, k = offset + 1 + d := ⟨k - offset - 1, by omega⟩
      have hleft : offset + 1 + d - (offset + 1) = d := by omega
      have hright : offset + 1 + d - offset = d + 1 := by omega
      simp [hne, hleft, hright, Nat.le_of_lt hlt]
    · have hlt : ¬ offset + 1 ≤ offset := by omega
      simp [hlt]
    · have hne : offset ≠ k := Nat.ne_of_gt hgt
      have h₁ : ¬ offset + 1 ≤ k := by omega
      have h₂ : ¬ offset ≤ k := by omega
      simp [hne, h₁, h₂]

/-- A fresh frame begins with the bytes it was made from and has zeros behind them. -/
theorem get_ofBytes (bytes : List UInt8) {k : Nat} (h : k < pageSize) :
    (ofBytes bytes).get k = bytes.getD k 0 := by
  rw [get_eq_getElem _ h, ofBytes, getElem_overlay _ _ _ h]
  simp [zeroBytes]

/-- One byte laid over a page replaces the byte at its offset. -/
theorem get_overlay_singleton (f : Frame) {offset : Nat} (b : UInt8) (version k : Nat)
    (h : offset < pageSize) :
    Frame.get ⟨overlay f.bytes offset [b], version⟩ k = if k = offset then b else f.get k := by
  by_cases hk : k < pageSize
  · rw [get_eq_getElem _ hk, get_eq_getElem _ hk]
    simp only [overlay, Vector.getElem_setIfInBounds, eq_comm]
  · have hle := Nat.le_of_not_lt hk
    have hne : k ≠ offset := by omega
    rw [get_of_le _ hle, get_of_le _ hle, if_neg hne]

@[simp] theorem length_slice (f : Frame) (offset count : Nat) :
    (f.slice offset count).length = count := by
  simp [slice]

end Frame

namespace FrameStore

variable (s : FrameStore) (id other : FrameId)

/-! ### The frame behind a number -/

theorem frame_insert (f : Frame) :
    (s.insert id f).frame other = if other = id then f else s.frame other := by
  simp only [frame, insert, Std.ExtTreeMap.getD_insert, Std.LawfulEqCmp.compare_eq_iff_eq,
    @eq_comm _ other id]

theorem frame_put (offset : Nat) (bytes : List UInt8) :
    (s.put id offset bytes).frame other =
      if other = id then { s.frame id with bytes := Frame.overlay (s.frame id).bytes offset bytes }
      else s.frame other := by
  rw [put, frame_insert]

theorem frame_bump :
    (s.bump id).frame other =
      if other = id then { s.frame id with version := (s.frame id).version + 1 }
      else s.frame other := by
  rw [bump, frame_insert]

theorem frame_write (offset : Nat) (bytes : List UInt8) :
    (s.write id offset bytes).frame other =
      if other = id then
        ⟨Frame.overlay (s.frame id).bytes offset bytes, (s.frame id).version + 1⟩
      else s.frame other := by
  rw [write, frame_bump, frame_put, frame_put]
  by_cases h : other = id
  · simp [h]
  · simp [h]

@[simp] theorem next_insert (f : Frame) : (s.insert id f).next = s.next := rfl

@[simp] theorem next_bump : (s.bump id).next = s.next := rfl

@[simp] theorem frame_allocate (count : Nat) : (s.allocate count).2.frame other = s.frame other :=
  rfl

@[simp] theorem next_allocate (count : Nat) : (s.allocate count).2.next = s.next + count := rfl

/-! ### The bytes of all frames -/

/-- The bytes of all frames, by frame and offset. -/
def contents (cell : FrameId × Nat) : UInt8 :=
  (s.frame cell.1).get cell.2

/-- The cells that a byte string takes from an offset of a frame on, with the bytes they get. -/
def cellsFrom (id : FrameId) (offset : Nat) : List UInt8 → List ((FrameId × Nat) × UInt8)
  | [] => []
  | b :: bs => ((id, offset), b) :: cellsFrom id (offset + 1) bs

/-- Give cells new bytes, one after the other. -/
def assign {Cell : Type} [DecidableEq Cell] (f : Cell → UInt8) (stores : List (Cell × UInt8)) :
    Cell → UInt8 :=
  stores.foldl (fun f store ↦ Function.update f store.1 store.2) f

theorem assign_append {Cell : Type} [DecidableEq Cell] (f : Cell → UInt8)
    (xs ys : List (Cell × UInt8)) : assign f (xs ++ ys) = assign (assign f xs) ys := by
  rw [assign, assign, assign, List.foldl_append]

theorem contents_bump : (s.bump id).contents = s.contents := by
  funext cell
  rw [contents, contents, frame_bump]
  by_cases h : cell.1 = id
  · simp [h, Frame.get]
  · simp [h]

theorem contents_put_singleton {offset : Nat} (b : UInt8) (h : offset < pageSize) :
    (s.put id offset [b]).contents = Function.update s.contents (id, offset) b := by
  funext ⟨other, k⟩
  rw [contents, frame_put]
  by_cases hid : other = id
  · subst hid
    rw [if_pos rfl, Frame.get_overlay_singleton _ _ _ _ h, Function.update_apply]
    simp [contents]
  · simp [contents, hid]

/-- Bytes put in a frame are put one after the other. -/
theorem contents_put_cons (offset : Nat) (b : UInt8) (bs : List UInt8) :
    (s.put id offset (b :: bs)).contents =
      ((s.put id offset [b]).put id (offset + 1) bs).contents := by
  funext cell
  simp only [contents, frame_put]
  by_cases h : cell.1 = id
  · simp [h, Frame.overlay]
  · simp [h]

theorem contents_put (offset : Nat) (bytes : List UInt8) (h : offset + bytes.length ≤ pageSize) :
    (s.put id offset bytes).contents = assign s.contents (cellsFrom id offset bytes) := by
  induction bytes generalizing s offset with
  | nil =>
    funext cell
    simp only [contents, frame_put, Frame.overlay, cellsFrom, assign, List.foldl_nil]
    by_cases hid : cell.1 = id
    · simp [hid]
    · simp [hid]
  | cons b bs ih =>
    simp only [List.length_cons] at h
    have hrest : offset + 1 + bs.length ≤ pageSize := by omega
    have hfirst : offset < pageSize := by omega
    rw [contents_put_cons, ih _ _ hrest, contents_put_singleton _ _ _ hfirst]
    rfl

theorem contents_write (offset : Nat) (bytes : List UInt8)
    (h : offset + bytes.length ≤ pageSize) :
    (s.write id offset bytes).contents = assign s.contents (cellsFrom id offset bytes) := by
  rw [write, contents_bump, contents_put _ _ _ _ h]

end FrameStore

end LongMode
