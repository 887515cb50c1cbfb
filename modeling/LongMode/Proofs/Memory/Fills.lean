import LongMode.Proofs.Memory.Copies

/-!
Ranges that are filled with copies of an element. The length of an element divides that of a page,
so the offset of a cell in its frame tells which byte of the element belongs there, by whatever
address the cell is reached (`elementByte`). A fill can therefore be cut into parts that are stored
in any order, and a cell that is behind several addresses is given the same byte each time: in the
end the cells behind the range have their byte, and all others are as before (`filled`).

A fill is allowed where each address of its range permits it (`Memory.WellFormed.check_iff`). No
range is allowed that goes past the last address, because the last page is never mapped.
-/

set_option autoImplicit false
set_option relaxedAutoImplicit false

namespace LongMode

/-! ### Cells that are given a byte of their own -/

section Cells

variable {Cell : Type} (resolve : Nat → Option Cell)

/-- A cell is behind a range if it is behind one of two parts. -/
theorem exists_resolve_add (c : Cell) (n a b : Nat) :
    (∃ i < a + b, resolve (n + i) = some c) ↔
      (∃ i < a, resolve (n + i) = some c) ∨ ∃ i < b, resolve (n + a + i) = some c := by
  constructor
  · rintro ⟨i, hi, hc⟩
    rcases Nat.lt_or_ge i a with hlt | hge
    · exact .inl ⟨i, hlt, hc⟩
    · obtain ⟨j, rfl⟩ := Nat.exists_eq_add_of_le hge
      exact .inr ⟨j, by omega, Nat.add_assoc n a j ▸ hc⟩
  · rintro (⟨i, hi, hc⟩ | ⟨i, hi, hc⟩)
    · exact ⟨i, by omega, hc⟩
    · exact ⟨a + i, by omega, Nat.add_assoc n a i ▸ hc⟩

variable [DecidableEq Cell] (value : Cell → UInt8)

/-- The bytes of all cells after those behind a range were given a byte of their own. -/
def filled (f : Cell → UInt8) (n count : Nat) (c : Cell) : UInt8 :=
  if ∃ i < count, resolve (n + i) = some c then value c else f c

variable {resolve value}

theorem filled_zero (f : Cell → UInt8) (n : Nat) : filled resolve value f n 0 = f := by
  funext c
  exact if_neg fun ⟨_, hi, _⟩ ↦ Nat.not_lt_zero _ hi

/-- The lower part of a range before its upper part. -/
theorem filled_add (f : Cell → UInt8) (n a b : Nat) :
    filled resolve value (filled resolve value f n a) (n + a) b =
      filled resolve value f n (a + b) := by
  funext c
  have hparts := exists_resolve_add resolve c n a b
  by_cases hb : ∃ i < b, resolve (n + a + i) = some c
  · rw [filled, if_pos hb, filled, if_pos (hparts.mpr (.inr hb))]
  · rw [filled, if_neg hb]
    exact (if_congr (hparts.trans (or_iff_left hb)) rfl rfl).symm

/-- The upper part of a range before its lower part. -/
theorem filled_add_back (f : Cell → UInt8) (n a b : Nat) :
    filled resolve value (filled resolve value f (n + a) b) n a =
      filled resolve value f n (a + b) := by
  funext c
  have hparts := exists_resolve_add resolve c n a b
  by_cases ha : ∃ i < a, resolve (n + i) = some c
  · rw [filled, if_pos ha, filled, if_pos (hparts.mpr (.inl ha))]
  · rw [filled, if_neg ha]
    exact (if_congr (hparts.trans (or_iff_right ha)) rfl rfl).symm

/-- A string is stored whose bytes are those of the cells that they go to. -/
theorem assign_spread_eq_filled (f : Cell → UInt8) {n : Nat} {bytes : List UInt8}
    (h : ∀ (i : Nat) (c : Cell), i < bytes.length → resolve (n + i) = some c →
      bytes[i]? = some (value c)) :
    FrameStore.assign f (spread resolve n bytes) = filled resolve value f n bytes.length := by
  induction bytes generalizing n f with
  | nil => exact (filled_zero f n).symm
  | cons b bs ih =>
    have hfirst : FrameStore.assign f ((resolve n).map (·, b)).toList =
        filled resolve value f n 1 := by
      funext c
      rw [assign_toList_map, filled]
      by_cases hc : resolve n = some c
      · have hb : some b = some (value c) := h 0 c (Nat.zero_lt_succ _) hc
        rw [if_pos hc, if_pos ⟨0, Nat.one_pos, hc⟩, Option.some.inj hb]
      · have hout : ¬∃ i < 1, resolve (n + i) = some c := by
          rintro ⟨i, hi, hresolve⟩
          rw [Nat.lt_one_iff.mp hi] at hresolve
          exact hc hresolve
        rw [if_neg hc, if_neg hout]
    rw [spread, FrameStore.assign_append, hfirst, ih, filled_add, List.length_cons, Nat.add_comm 1]
    intro i c hi hc
    rw [Nat.add_assoc, Nat.add_comm 1 i] at hc
    exact h (i + 1) c (Nat.succ_lt_succ hi) hc

end Cells

/-! ### Copies of an element -/

/-- The byte of an element that belongs in a cell where copies of the element begin at `start`. -/
def elementByte (element : List UInt8) (start : Nat) (c : FrameId × Nat) : UInt8 :=
  element.getD ((c.2 + (element.length - start % element.length)) % element.length) 0

theorem getElem?_flatten_replicate {element : List UInt8} {count i : Nat}
    (h : i < count * element.length) :
    (List.replicate count element).flatten[i]? = element[i % element.length]? := by
  induction count generalizing i with
  | zero => omega
  | succ count ih =>
    rw [Nat.succ_mul] at h
    rw [List.replicate_succ, List.flatten_cons, List.getElem?_append]
    split
    next hlt => rw [Nat.mod_eq_of_lt hlt]
    next hge => rw [ih (by omega), ← Nat.mod_eq_sub_mod (Nat.le_of_not_lt hge)]

theorem length_flatten_replicate (element : List UInt8) (count : Nat) :
    (List.replicate count element).flatten.length = count * element.length := by
  rw [List.length_flatten, List.map_replicate, List.sum_replicate_nat]

/-- Copies of an element give every cell the byte that belongs there. -/
theorem getElem?_of_cell? {s : AddressSpace} {element : List UInt8} {start n i : Nat}
    {c : FrameId × Nat} (hdvd : element.length ∣ pageSize)
    (hphase : n % element.length = start % element.length) (hc : s.cell? (n + i) = some c) :
    element[i % element.length]? = some (elementByte element start c) := by
  have hpos : 0 < element.length := Nat.pos_of_dvd_of_pos hdvd (by decide)
  have hindex : (c.2 + (element.length - start % element.length)) % element.length =
      i % element.length := by
    have hquotient := Nat.div_add_mod n element.length
    have hlt := Nat.mod_lt n hpos
    have hsum : n + i + (element.length - n % element.length) =
        i + element.length * (n / element.length + 1) := by
      rw [Nat.mul_succ]
      omega
    rw [AddressSpace.offset_of_cell? hc, Nat.add_mod, Nat.mod_mod_of_dvd _ hdvd, ← Nat.add_mod,
      ← hphase, hsum, Nat.add_mul_mod_self_left]
  rw [elementByte, hindex, List.getD_eq_getElem?_getD,
    List.getElem?_eq_getElem (Nat.mod_lt _ hpos)]
  rfl

namespace Memory

variable {m : Memory}

/-- Copies of an element that are stored from an address on, which is in step with `start`. -/
theorem contents_store_replicate (m : Memory) {element : List UInt8} {start : Nat} {a : Address}
    (count : Nat) (hdvd : element.length ∣ pageSize)
    (hphase : a.toNat % element.length = start % element.length) :
    (m.store a (List.replicate count element).flatten).frames.contents =
      filled m.space.cell? (elementByte element start) m.frames.contents a.toNat
        (count * element.length) := by
  have hbytes (i : Nat) (c : FrameId × Nat)
      (hi : i < (List.replicate count element).flatten.length)
      (hc : m.space.cell? (a.toNat + i) = some c) :
      (List.replicate count element).flatten[i]? = some (elementByte element start c) := by
    rw [length_flatten_replicate] at hi
    rw [getElem?_flatten_replicate hi]
    exact getElem?_of_cell? hdvd hphase hc
  rw [contents_store, assign_spread_eq_filled _ hbytes, length_flatten_replicate]

/-- Memory before and after parts of a fill were stored that make up a range. -/
structure Filled (m : Memory) (element : List UInt8) (start n length : Nat) (m' : Memory) :
    Prop where
  space : m'.space = m.space
  contents : m'.frames.contents =
    filled m.space.cell? (elementByte element start) m.frames.contents n length

namespace Filled

variable {element : List UInt8} {start n a b : Nat} {m' m'' : Memory}

theorem refl : m.Filled element start n 0 m where
  space := rfl
  contents := (filled_zero _ n).symm

/-- An empty range can be anywhere. -/
theorem of_empty (h : m.Filled element start n 0 m') : m.Filled element start b 0 m' where
  space := h.space
  contents := by rw [h.contents, filled_zero, filled_zero]

/-- The lower part of a range before its upper part. -/
theorem trans (h : m.Filled element start n a m') (h' : m'.Filled element start (n + a) b m'') :
    m.Filled element start n (a + b) m'' where
  space := h'.space.trans h.space
  contents := by rw [h'.contents, h.space, h.contents, filled_add]

/-- The upper part of a range before its lower part. -/
theorem trans_back (h : m.Filled element start (n + a) b m')
    (h' : m'.Filled element start n a m'') : m.Filled element start n (a + b) m'' where
  space := h'.space.trans h.space
  contents := by rw [h'.contents, h.space, h.contents, filled_add_back]

/-- In which order a range was filled makes no difference. -/
theorem byte_eq (h : m.Filled element start n a m') (h' : m.Filled element start n a m'')
    (address : Address) : m'.byte address = m''.byte address := by
  rw [byte_eq_getD, byte_eq_getD, h.space, h'.space, h.contents, h'.contents]

end Filled

theorem filled_store (m : Memory) {element : List UInt8} {start : Nat} {a : Address} (count : Nat)
    (hdvd : element.length ∣ pageSize)
    (hphase : a.toNat % element.length = start % element.length) :
    m.Filled element start a.toNat (count * element.length)
      (m.store a (List.replicate count element).flatten) where
  space := (m.stored_store a _).space
  contents := m.contents_store_replicate count hdvd hphase

theorem filled_store_one (m : Memory) {element : List UInt8} {start : Nat} {a : Address}
    (hdvd : element.length ∣ pageSize)
    (hphase : a.toNat % element.length = start % element.length) :
    m.Filled element start a.toNat element.length (m.store a element) := by
  have hone := m.filled_store 1 hdvd hphase
  rw [List.replicate_one, List.flatten_singleton, Nat.one_mul] at hone
  exact hone

/-! ### Ranges that permit an access -/

/-- Whether an address lies in a page that permits an access. -/
def permits (m : Memory) (access : Access) (a : Address) : Bool :=
  (m.page? a).any (·.permissions.allows access)

theorem permits_eq_true_iff (access : Access) (a : Address) :
    m.permits access a = true ↔ m.PagePermits access true a.page := by
  rw [permits, Option.any_eq_true]
  exact exists_congr fun p ↦ and_congr_right fun _ ↦ ⟨fun h _ ↦ h, fun h ↦ h rfl⟩

/-- A range is not refused if and only if each of its addresses, counted around the end of memory,
permits the access. -/
theorem WellFormed.check_iff (h : m.WellFormed) {access : Access} {a : Address} {length : Nat} :
    m.check access a length = .ok () ↔
      ∀ i < length, m.permits access (a + BitVec.ofNat 64 i) = true := by
  constructor
  · intro hcheck i hi
    obtain ⟨hlt, p, hp, hallows⟩ := page?_of_checkRange hcheck hi
    exact (permits_eq_true_iff access _).mpr ⟨p, hp, hallows⟩
  · intro hpermits
    by_cases hwrap : addressLimit ≤ a.toNat + length
    · -- The last address of all would be in a mapped page.
      have hlast := a.toNat_lt
      have hsum : a.toNat + (addressLimit - 1 - a.toNat) < addressLimit := by omega
      obtain hzero | hpos := Nat.eq_zero_or_pos length
      · exact (m.check_eq_ok access a length).mpr (.inl hzero)
      by_cases hin : addressLimit - 1 - a.toNat < length
      · obtain ⟨p, hp, -⟩ := (permits_eq_true_iff access _).mp (hpermits _ hin)
        have hpage := h.page_lt _ p hp
        rw [Address.page_add_ofNat a hsum] at hpage
        simp only [pageSize, addressLimit] at *
        omega
      · omega
    · refine (m.check_eq_ok access a length).mpr (.inr ⟨by omega, fun n hlow hhigh ↦ ?_⟩)
      obtain ⟨i, rfl⟩ := Nat.exists_eq_add_of_le hlow
      rw [← Address.page_add_ofNat a (by omega)]
      exact (permits_eq_true_iff access _).mp (hpermits i (by omega))

end Memory

end LongMode
