import LongMode.Proofs.Memory.Cells
import LongMode.Proofs.Memory.World

/-!
Copies from one range of addresses to another. A copy loads a whole range and then stores it. Cut
into elements or chunks it stores before it has loaded everything, which makes no difference as long
as no cell is behind both ranges (`contents_copyElements`, `contents_copyChunks`); toward lower
addresses the later bytes are stored first, so there the cells behind the destination have to differ
as well (`contents_copyElements_back`).

That the addresses of two ranges differ is not enough for that: cells are what counts.
-/

set_option autoImplicit false
set_option relaxedAutoImplicit false

namespace LongMode

/-! ### Copies between cells -/

section Cells

variable {Cell : Type} (resolve : Nat → Option Cell)

/-- The bytes of the cells that consecutive numbers from `n` on resolve to; zero where there is no
cell. -/
def gather (f : Cell → UInt8) (n count : Nat) : List UInt8 :=
  (List.range count).map fun i ↦ ((resolve (n + i)).map f).getD 0

/-- No cell is behind two ranges of one length. -/
def Apart (src dst count : Nat) : Prop :=
  ∀ i < count, ∀ j < count, resolve (src + i) ≠ resolve (dst + j)

/-- No cell is behind two numbers of a range. -/
def Scattered (dst count : Nat) : Prop :=
  ∀ i < count, ∀ j < count, resolve (dst + i) = resolve (dst + j) → i = j

@[simp] theorem length_gather (f : Cell → UInt8) (n count : Nat) :
    (gather resolve f n count).length = count := by
  simp [gather]

theorem gather_add (f : Cell → UInt8) (n a b : Nat) :
    gather resolve f n (a + b) = gather resolve f n a ++ gather resolve f (n + a) b := by
  simp only [gather, List.range_add, List.map_append, List.map_map, Function.comp_def,
    Nat.add_assoc]

variable {resolve}

theorem Apart.part {src dst count : Nat} (h : Apart resolve src dst count) {a b : Nat}
    (hpart : a + b ≤ count) : Apart resolve (src + a) (dst + a) b := by
  intro i hi j hj
  rw [Nat.add_assoc, Nat.add_assoc]
  exact h (a + i) (by omega) (a + j) (by omega)

theorem Scattered.part {dst count : Nat} (h : Scattered resolve dst count) {a : Nat}
    (hpart : a ≤ count) : Scattered resolve dst a :=
  fun i hi j hj ↦ h i (by omega) j (by omega)

variable [DecidableEq Cell] (resolve)

instance decidableApart (src dst count : Nat) : Decidable (Apart resolve src dst count) :=
  inferInstanceAs (Decidable (∀ i < count, ∀ j < count, resolve (src + i) ≠ resolve (dst + j)))

instance decidableScattered (dst count : Nat) : Decidable (Scattered resolve dst count) :=
  inferInstanceAs
    (Decidable (∀ i < count, ∀ j < count, resolve (dst + i) = resolve (dst + j) → i = j))

/-- The bytes of all cells after those of one range were gathered and then stored in another. -/
def transfer (f : Cell → UInt8) (src dst count : Nat) : Cell → UInt8 :=
  FrameStore.assign f (spread resolve dst (gather resolve f src count))

variable {resolve}

/-- A transfer leaves alone what is gathered from cells that it does not go to. -/
theorem gather_transfer (f : Cell → UInt8) {n a src dst b : Nat}
    (h : ∀ i < a, ∀ j < b, resolve (n + i) ≠ resolve (dst + j)) :
    gather resolve (transfer resolve f src dst b) n a = gather resolve f n a := by
  refine List.map_congr_left fun i hi ↦ ?_
  cases hc : resolve (n + i) with
  | none => rfl
  | some c =>
    refine assign_spread_of_ne f fun j hj hj' ↦ ?_
    rw [length_gather] at hj
    exact h i (List.mem_range.mp hi) j hj (hc.trans hj'.symm)

/-- The lower part of a range before its upper part. -/
theorem transfer_add (f : Cell → UInt8) {src dst a b : Nat} (h : Apart resolve src dst (a + b)) :
    transfer resolve (transfer resolve f src dst a) (src + a) (dst + a) b =
      transfer resolve f src dst (a + b) := by
  have hload : gather resolve (transfer resolve f src dst a) (src + a) b =
      gather resolve f (src + a) b := by
    refine gather_transfer f fun i hi j hj ↦ ?_
    rw [Nat.add_assoc]
    exact h (a + i) (by omega) j (by omega)
  rw [transfer, hload, transfer, transfer, gather_add, spread_append, FrameStore.assign_append,
    length_gather]

/-- The upper part of a range before its lower part: no cell is given a byte twice, so that the
order of the two stores does not show. -/
theorem transfer_add_back (f : Cell → UInt8) {src dst a b : Nat}
    (h : Apart resolve src dst (a + b)) (hdst : Scattered resolve dst (a + b)) :
    transfer resolve (transfer resolve f (src + a) (dst + a) b) src dst a =
      transfer resolve f src dst (a + b) := by
  have hload : gather resolve (transfer resolve f (src + a) (dst + a) b) src a =
      gather resolve f src a := by
    refine gather_transfer f fun i hi j hj ↦ ?_
    rw [Nat.add_assoc]
    exact h i (by omega) (a + j) (by omega)
  have hdistinct : ∀ i < (gather resolve f (src + a) b).length,
      ∀ j < (gather resolve f src a).length, ∀ c, resolve (dst + a + i) = some c →
        resolve (dst + j) ≠ some c := by
    intro i hi j hj c hc hc'
    rw [length_gather] at hi hj
    rw [Nat.add_assoc] at hc
    have hsame := hdst (a + i) (by omega) j (by omega) (hc.trans hc'.symm)
    omega
  rw [transfer, hload, transfer, assign_spread_comm hdistinct, transfer, gather_add, spread_append,
    FrameStore.assign_append, length_gather]

end Cells

namespace Memory

/-! ### Copies between addresses -/

/-- Load a range, and store it elsewhere. -/
def copy (m : Memory) (src dst : Address) (count : Nat) : Memory :=
  m.store dst (m.bytes src count)

/-- Copy elements one after the other, toward lower addresses if `back` is set. -/
def copyElements (back : Bool) (size : Nat) : (count : Nat) → Memory → (src dst : Address) → Memory
  | 0, m, _, _ => m
  | count + 1, m, src, dst =>
    copyElements back size count (m.copy src dst size)
      (if back then src - BitVec.ofNat 64 size else src + BitVec.ofNat 64 size)
      (if back then dst - BitVec.ofNat 64 size else dst + BitVec.ofNat 64 size)

/-- Copy a range in chunks of at most `size` bytes, in ascending order. -/
def copyChunks (size : Nat) :
    (count : Nat) → Memory → (src dst : Address) → (length : Nat) → Memory
  | 0, m, _, _, _ => m
  | count + 1, m, src, dst, length =>
    copyChunks size count (m.copy src dst (min length size))
      (src + BitVec.ofNat 64 (min length size)) (dst + BitVec.ofNat 64 (min length size))
      (length - min length size)

theorem space_copy (m : Memory) (src dst : Address) (count : Nat) :
    (m.copy src dst count).space = m.space :=
  (m.stored_store dst _).space

theorem space_copyElements (back : Bool) (size count : Nat) (m : Memory) (src dst : Address) :
    (m.copyElements back size count src dst).space = m.space := by
  induction count generalizing m src dst with
  | zero => rfl
  | succ count ih => exact (ih _ _ _).trans (m.space_copy src dst size)

theorem space_copyChunks (size count : Nat) (m : Memory) (src dst : Address) (length : Nat) :
    (m.copyChunks size count src dst length).space = m.space := by
  induction count generalizing m src dst length with
  | zero => rfl
  | succ count ih => exact (ih _ _ _ _).trans (m.space_copy src dst _)

/-- The byte at an address is the one in its cell, and zero if it has none. -/
theorem byte_eq_getD (m : Memory) (a : Address) :
    m.byte a = ((m.space.cell? a.toNat).map m.frames.contents).getD 0 := by
  cases hc : m.space.cell? a.toNat with
  | none =>
    rw [AddressSpace.cell?, Option.map_eq_none_iff] at hc
    exact m.byte_of_unmapped hc
  | some c => exact m.byte_eq_contents hc

theorem bytes_eq_gather (m : Memory) (a : Address) {count : Nat}
    (hend : a.toNat + count ≤ addressLimit) :
    m.bytes a count = gather m.space.cell? m.frames.contents a.toNat count := by
  refine List.map_congr_left fun i hi ↦ ?_
  rw [List.mem_range] at hi
  rw [byte_eq_getD, Address.toNat_add_ofNat a (by omega)]

theorem contents_copy (m : Memory) (src dst : Address) {count : Nat}
    (hend : src.toNat + count ≤ addressLimit) :
    (m.copy src dst count).frames.contents =
      transfer m.space.cell? m.frames.contents src.toNat dst.toNat count := by
  rw [copy, contents_store, m.bytes_eq_gather src hend, transfer]

/-- Elements copied one after the other, in ascending order, are a copy of the whole range. -/
theorem contents_copyElements (m : Memory) (size count : Nat) (src dst : Address)
    (hsrc : src.toNat + count * size < addressLimit)
    (hdst : dst.toNat + count * size < addressLimit)
    (h : Apart m.space.cell? src.toNat dst.toNat (count * size)) :
    (m.copyElements false size count src dst).frames.contents =
      transfer m.space.cell? m.frames.contents src.toNat dst.toNat (count * size) := by
  induction count generalizing m src dst with
  | zero =>
    rw [Nat.zero_mul]
    rfl
  | succ count ih =>
    have hsplit : (count + 1) * size = size + count * size := by
      rw [Nat.succ_mul, Nat.add_comm]
    rw [hsplit] at hsrc hdst h ⊢
    have hsrc' : (src + BitVec.ofNat 64 size).toNat = src.toNat + size :=
      Address.toNat_add_ofNat src (by omega)
    have hdst' : (dst + BitVec.ofNat 64 size).toNat = dst.toNat + size :=
      Address.toNat_add_ofNat dst (by omega)
    have hrest := ih (m.copy src dst size) (src + BitVec.ofNat 64 size)
      (dst + BitVec.ofNat 64 size) (by omega) (by omega) (by
        rw [space_copy, hsrc', hdst']
        exact h.part (Nat.le_refl _))
    rw [space_copy, hsrc', hdst', m.contents_copy src dst (by omega), transfer_add _ h] at hrest
    exact hrest

/-- Elements copied one after the other, beginning with the highest. -/
theorem contents_copyElements_back (m : Memory) (size count : Nat) (src dst : Address)
    (hsrc : src.toNat + count * size < addressLimit)
    (hdst : dst.toNat + count * size < addressLimit)
    (h : Apart m.space.cell? src.toNat dst.toNat (count * size))
    (hscattered : Scattered m.space.cell? dst.toNat (count * size)) :
    (m.copyElements true size count (src + BitVec.ofNat 64 (count * size - size))
        (dst + BitVec.ofNat 64 (count * size - size))).frames.contents =
      transfer m.space.cell? m.frames.contents src.toNat dst.toNat (count * size) := by
  induction count generalizing m with
  | zero =>
    rw [Nat.zero_mul]
    rfl
  | succ count ih =>
    rw [Nat.succ_mul] at hsrc hdst h hscattered ⊢
    rw [Nat.add_sub_cancel]
    have hsrc' : (src + BitVec.ofNat 64 (count * size)).toNat = src.toNat + count * size :=
      Address.toNat_add_ofNat src (by omega)
    have hdst' : (dst + BitVec.ofNat 64 (count * size)).toNat = dst.toNat + count * size :=
      Address.toNat_add_ofNat dst (by omega)
    have hrest := ih (m.copy (src + BitVec.ofNat 64 (count * size))
      (dst + BitVec.ofNat 64 (count * size)) size) (by omega) (by omega)
      (by
        rw [space_copy]
        exact h.part (a := 0) (by omega))
      (by
        rw [space_copy]
        exact hscattered.part (by omega))
    rw [space_copy, m.contents_copy _ _ (by omega), hsrc', hdst', transfer_add_back _ h hscattered]
      at hrest
    rw [← hrest, copyElements]
    -- where an element is left, the next address is that of the highest one left
    cases count with
    | zero => rfl
    | succ count =>
      have hsplit : BitVec.ofNat 64 ((count + 1) * size) =
          BitVec.ofNat 64 ((count + 1) * size - size) + BitVec.ofNat 64 size := by
        rw [← BitVec.ofNat_add, Nat.sub_add_cancel (Nat.le_mul_of_pos_left _ (Nat.succ_pos _))]
      have hnext (a : Address) : a + BitVec.ofNat 64 ((count + 1) * size) - BitVec.ofNat 64 size =
          a + BitVec.ofNat 64 ((count + 1) * size - size) := by
        rw [hsplit, ← BitVec.add_assoc, BitVec.add_sub_cancel]
      rw [if_pos rfl, if_pos rfl, hnext, hnext]

/-- Chunks copied one after the other are a copy of the whole range. -/
theorem contents_copyChunks (m : Memory) (size count : Nat) (src dst : Address) (length : Nat)
    (hlength : length ≤ count * size) (hsrc : src.toNat + length < addressLimit)
    (hdst : dst.toNat + length < addressLimit)
    (h : Apart m.space.cell? src.toNat dst.toNat length) :
    (m.copyChunks size count src dst length).frames.contents =
      transfer m.space.cell? m.frames.contents src.toNat dst.toNat length := by
  induction count generalizing m src dst length with
  | zero =>
    rw [Nat.zero_mul, Nat.le_zero] at hlength
    rw [hlength]
    rfl
  | succ count ih =>
    rw [Nat.succ_mul] at hlength
    obtain ⟨now, hnow⟩ : ∃ now, now = min length size := ⟨_, rfl⟩
    obtain ⟨rest, rfl⟩ : ∃ rest, length = now + rest := ⟨length - now, by omega⟩
    have hsrc' : (src + BitVec.ofNat 64 now).toNat = src.toNat + now :=
      Address.toNat_add_ofNat src (by omega)
    have hdst' : (dst + BitVec.ofNat 64 now).toNat = dst.toNat + now :=
      Address.toNat_add_ofNat dst (by omega)
    have hrest := ih (m.copy src dst now) (src + BitVec.ofNat 64 now)
      (dst + BitVec.ofNat 64 now) rest (by omega) (by omega) (by omega) (by
        rw [space_copy, hsrc', hdst']
        exact h.part (Nat.le_refl _))
    rw [space_copy, hsrc', hdst', m.contents_copy src dst (by omega), transfer_add _ h] at hrest
    rw [copyChunks, ← hnow, Nat.add_sub_cancel_left]
    exact hrest

/-- A range that is not refused ends below 2^64. -/
theorem WellFormed.lt_of_check {m : Memory} (h : m.WellFormed) {access : Access} {a : Address}
    {count : Nat} (hcheck : m.check access a count = .ok ()) (hcount : 0 < count) :
    a.toNat + count < addressLimit := by
  rcases (m.check_eq_ok access a count).mp hcheck with hzero | ⟨_, hpermits⟩
  · omega
  · obtain ⟨p, hp, _⟩ := hpermits (a.toNat + (count - 1)) (by omega) (by omega)
    have hpage := h.page_lt _ p hp
    simp only [pageSize] at hpage
    omega

end Memory

end LongMode
