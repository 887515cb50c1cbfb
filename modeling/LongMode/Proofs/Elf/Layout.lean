import LongMode.Elf.Segment
import LongMode.Proofs.Memory.Views
import Mathlib.Data.List.GetD

/-!
What memory looks like once segments have been placed one after the other, in terms of its view
alone. `View.lay` is what one segment does to a view. A segment whose pages are all free brings the
bytes before it in its first page and zeros behind its data; any other segment brings its data only,
and every page of a segment takes on its permissions.

Over a list of segments, a page has the permissions of the last one that touches it
(`permissions_layAll_of_last`), and an address in the data of segments has the byte of the last of
them (`byte_layAll_of_last`). An address in no data keeps the byte it got from the first segment
that touches its page (`byte_layAll_of_first`).
-/

set_option autoImplicit false
set_option relaxedAutoImplicit false

namespace LongMode

namespace Elf.Segment

/-- A segment whose lead reaches from the start of its first page to its address, and whose data
does not pass its end. -/
structure Regular (s : Segment) : Prop where
  length_lead : s.lead.length = s.address % pageSize
  length_data_le : s.data.length ≤ s.memorySize

/-- An address takes a byte of the data of a segment. -/
def HoldsData (s : Segment) (n : Nat) : Prop :=
  s.address ≤ n ∧ n < s.address + s.data.length

/-- A page of a segment is one that starts below its end and does not end at or below its start. -/
theorem contains_pages_iff (s : Segment) (number : Nat) :
    s.pages.contains number = true ↔
      s.address / pageSize ≤ number ∧ number * pageSize < s.address + s.memorySize := by
  rw [PageRange.contains_iff]
  simp only [pages, roundUpToPage, pageSize]
  omega

variable {s : Segment}

theorem Regular.contains_of_holdsData (hs : s.Regular) {n : Nat} (h : s.HoldsData n) :
    s.pages.contains (n / pageSize) = true := by
  have hdata := hs.length_data_le
  have hfloor : n / pageSize * pageSize ≤ n := Nat.div_mul_le_self _ _
  rw [contains_pages_iff]
  exact ⟨Nat.div_le_div_right h.1, by have := h.2; omega⟩

/-- In the first page of a segment the lead comes before the address of the segment. -/
theorem Regular.length_lead_add (hs : s.Regular) :
    s.address / pageSize * pageSize + s.lead.length = s.address := by
  rw [hs.length_lead, Nat.div_add_mod']

end Elf.Segment

namespace View

variable (v : View)

instance decidableIsFree (r : PageRange) : Decidable (v.IsFree r) :=
  decidable_of_iff (∀ i < r.count, v.permissions (r.first + i) = none) <| by
    constructor
    · intro h number hnumber
      rw [PageRange.contains_iff] at hnumber
      have hsum : r.first + (number - r.first) = number := Nat.add_sub_cancel' hnumber.1
      rw [← hsum]
      exact h _ (by omega)
    · intro h i hi
      exact h _ ((PageRange.contains_iff _ _).mpr ⟨Nat.le_add_right _ _, by omega⟩)

/-- A segment is placed. -/
def lay (v : View) (s : Elf.Segment) : View :=
  if v.IsFree s.pages then
    (v.permit s.pages s.permissions).fill s.pages fun i ↦ (s.lead ++ s.data).getD i 0
  else (v.permit s.pages s.permissions).put s.address s.data

/-! ### One segment -/

section OneSegment

variable (s : Elf.Segment)

theorem permissions_lay (number : Nat) :
    (v.lay s).permissions number =
      if s.pages.contains number then some s.permissions else v.permissions number := by
  rw [lay]
  split <;> rfl

variable {v s} {n : Nat}

theorem byte_lay_of_not_isFree (hfree : ¬ v.IsFree s.pages) (hdata : ¬ s.HoldsData n) :
    (v.lay s).byte n = v.byte n := by
  rw [lay, if_neg hfree, byte_put, byte_permit]
  exact if_neg hdata

/-- A segment changes nothing outside of its pages. -/
theorem byte_lay_of_not_contains (hs : s.Regular)
    (hpage : ¬ s.pages.contains (n / pageSize) = true) : (v.lay s).byte n = v.byte n := by
  by_cases hfree : v.IsFree s.pages
  · rw [lay, if_pos hfree, byte_fill, byte_permit, if_neg hpage]
  · exact byte_lay_of_not_isFree hfree (hpage ∘ hs.contains_of_holdsData)

/-- Where a page is mapped already, a segment changes what its data covers and nothing else. -/
theorem byte_lay_of_mapped (hs : s.Regular) (hmapped : v.permissions (n / pageSize) ≠ none)
    (hdata : ¬ s.HoldsData n) : (v.lay s).byte n = v.byte n := by
  by_cases hfree : v.IsFree s.pages
  · exact byte_lay_of_not_contains hs fun hpage ↦ hmapped (hfree _ hpage)
  · exact byte_lay_of_not_isFree hfree hdata

/-- The data of a segment is where the segment says. -/
theorem byte_lay_of_holdsData (hs : s.Regular) (hdata : s.HoldsData n) :
    (v.lay s).byte n = s.data.getD (n - s.address) 0 := by
  have hpage := hs.contains_of_holdsData hdata
  by_cases hfree : v.IsFree s.pages
  · have hlead := hs.length_lead_add
    have hlow := hdata.1
    rw [lay, if_pos hfree, byte_fill, if_pos hpage, List.getD_append_right _ _ _ _ (by
      simp only [Elf.Segment.pages]
      omega)]
    congr 1
    simp only [Elf.Segment.pages]
    omega
  · rw [lay, if_neg hfree, byte_put]
    exact if_pos hdata

/-- In fresh pages the data of a segment stands between its lead and zeros. -/
theorem byte_lay_of_isFree (hs : s.Regular) (hfree : v.IsFree s.pages)
    (hpage : s.pages.contains (n / pageSize) = true) (hdata : ¬ s.HoldsData n) :
    (v.lay s).byte n = if n < s.address then s.lead.getD (n % pageSize) 0 else 0 := by
  have hlead := hs.length_lead_add
  have hfirst := ((s.contains_pages_iff _).mp hpage).1
  rw [lay, if_pos hfree, byte_fill, if_pos hpage]
  simp only [Elf.Segment.pages]
  by_cases hbefore : n < s.address
  · -- the only page of the segment with addresses below it is the first
    have hsame : n / pageSize = s.address / pageSize :=
      Nat.le_antisymm (Nat.div_le_div_right (Nat.le_of_lt hbefore)) hfirst
    have hoffset : n - s.address / pageSize * pageSize = n % pageSize := by
      rw [← hsame, Nat.mod_eq_sub_div_mul]
    have hfloor : s.address / pageSize * pageSize ≤ n :=
      Nat.le_trans (Nat.mul_le_mul_right _ hfirst) (Nat.div_mul_le_self _ _)
    have hlt : n % pageSize < s.lead.length := by omega
    rw [if_pos hbefore, hoffset, List.getD_append _ _ _ _ hlt]
  · have hbehind : s.data.length ≤ n - s.address := by
      rw [Elf.Segment.HoldsData] at hdata
      omega
    rw [if_neg hbefore, List.getD_eq_default]
    rw [List.length_append]
    omega

end OneSegment

/-! ### All segments -/

/-- Segments are placed one after the other. -/
def layAll (v : View) (segments : List Elf.Segment) : View :=
  segments.foldl lay v

theorem layAll_append (segments later : List Elf.Segment) :
    v.layAll (segments ++ later) = (v.layAll segments).layAll later :=
  List.foldl_append

theorem layAll_cons (s : Elf.Segment) (later : List Elf.Segment) :
    v.layAll (s :: later) = (v.lay s).layAll later := rfl

/-- The mapped pages are those that were mapped before and those of the segments. -/
theorem mapped_layAll_iff (segments : List Elf.Segment) (number : Nat) :
    (v.layAll segments).permissions number ≠ none ↔
      v.permissions number ≠ none ∨ ∃ s ∈ segments, s.pages.contains number = true := by
  induction segments generalizing v with
  | nil => simp [layAll]
  | cons s segments ih =>
    rw [layAll_cons, ih, permissions_lay]
    simp only [List.mem_cons, exists_eq_or_imp]
    by_cases hpage : s.pages.contains number = true
    · simp only [hpage, if_true, ne_eq, reduceCtorEq, not_false_eq_true, true_or, or_true]
    · simp only [hpage, Bool.false_eq_true, if_false, false_or]

theorem isFree_layAll_iff (segments : List Elf.Segment) (r : PageRange) :
    (v.layAll segments).IsFree r ↔ v.IsFree r ∧
      ∀ s ∈ segments, ∀ number, r.contains number = true → ¬ s.pages.contains number = true := by
  have hfree (number : Nat) := not_congr (v.mapped_layAll_iff segments number)
  simp only [not_or, not_ne_iff, not_exists, not_and] at hfree
  simp only [IsFree, hfree]
  exact ⟨fun h ↦ ⟨fun number hr ↦ (h number hr).1, fun s hs number hr ↦ (h number hr).2 s hs⟩,
    fun h number hr ↦ ⟨h.1 number hr, fun s hs ↦ h.2 s hs number hr⟩⟩

variable {v} {segments before later : List Elf.Segment} {s : Elf.Segment} {number n : Nat}

theorem permissions_layAll_of_not_contains
    (h : ∀ s ∈ segments, ¬ s.pages.contains number = true) :
    (v.layAll segments).permissions number = v.permissions number := by
  induction segments generalizing v with
  | nil => rfl
  | cons s segments ih =>
    rw [List.forall_mem_cons] at h
    rw [layAll_cons, ih h.2, permissions_lay, if_neg h.1]

/-- A page has the permissions of the last segment that touches it. -/
theorem permissions_layAll_of_last (hpage : s.pages.contains number = true)
    (hlater : ∀ t ∈ later, ¬ t.pages.contains number = true) :
    (v.layAll (before ++ s :: later)).permissions number = some s.permissions := by
  rw [layAll_append, layAll_cons, permissions_layAll_of_not_contains hlater, permissions_lay,
    if_pos hpage]

theorem byte_layAll_of_not_contains (hregular : ∀ s ∈ segments, s.Regular)
    (h : ∀ s ∈ segments, ¬ s.pages.contains (n / pageSize) = true) :
    (v.layAll segments).byte n = v.byte n := by
  induction segments generalizing v with
  | nil => rfl
  | cons s segments ih =>
    rw [List.forall_mem_cons] at h hregular
    rw [layAll_cons, ih hregular.2 h.2, byte_lay_of_not_contains hregular.1 h.1]

/-- Where a page is mapped already, segments change what their data covers and nothing else. -/
theorem byte_layAll_of_mapped (hregular : ∀ s ∈ segments, s.Regular)
    (hmapped : v.permissions (n / pageSize) ≠ none) (hdata : ∀ s ∈ segments, ¬ s.HoldsData n) :
    (v.layAll segments).byte n = v.byte n := by
  induction segments generalizing v with
  | nil => rfl
  | cons s segments ih =>
    rw [List.forall_mem_cons] at hdata hregular
    have hstill : (v.lay s).permissions (n / pageSize) ≠ none := by
      rw [permissions_lay]
      split
      · exact Option.some_ne_none _
      · exact hmapped
    rw [layAll_cons, ih hregular.2 hstill hdata.2, byte_lay_of_mapped hregular.1 hmapped hdata.1]

theorem mapped_lay (hpage : s.pages.contains number = true) :
    (v.lay s).permissions number ≠ none := by
  rw [permissions_lay, if_pos hpage]
  exact Option.some_ne_none _

/-- An address in the data of segments has the byte of the last of them. -/
theorem byte_layAll_of_last (hregular : ∀ t ∈ before ++ s :: later, t.Regular)
    (hdata : s.HoldsData n) (hlater : ∀ t ∈ later, ¬ t.HoldsData n) :
    (v.layAll (before ++ s :: later)).byte n = s.data.getD (n - s.address) 0 := by
  rw [List.forall_mem_append, List.forall_mem_cons] at hregular
  obtain ⟨_, hs, hregular⟩ := hregular
  rw [layAll_append, layAll_cons,
    byte_layAll_of_mapped hregular (mapped_lay (hs.contains_of_holdsData hdata)) hlater,
    byte_lay_of_holdsData hs hdata]

/-- An address in no data has the byte that the first segment touching its page gave it: a byte of
the lead of this segment if its pages were all free, and otherwise what was there. -/
theorem byte_layAll_of_first (hregular : ∀ t ∈ before ++ s :: later, t.Regular)
    (hdata : ∀ t ∈ before ++ s :: later, ¬ t.HoldsData n)
    (hpage : s.pages.contains (n / pageSize) = true)
    (hbefore : ∀ t ∈ before, ¬ t.pages.contains (n / pageSize) = true) (hzero : v.byte n = 0) :
    (v.layAll (before ++ s :: later)).byte n =
      if (v.layAll before).IsFree s.pages ∧ n < s.address then s.lead.getD (n % pageSize) 0
      else 0 := by
  rw [List.forall_mem_append, List.forall_mem_cons] at hregular hdata
  obtain ⟨hregularBefore, hs, hregularLater⟩ := hregular
  obtain ⟨_, hsData, hlater⟩ := hdata
  rw [layAll_append, layAll_cons, byte_layAll_of_mapped hregularLater (mapped_lay hpage) hlater]
  by_cases hfree : (v.layAll before).IsFree s.pages
  · rw [byte_lay_of_isFree hs hfree hpage hsData]
    simp only [hfree, true_and]
  · rw [byte_lay_of_not_isFree hfree hsData, byte_layAll_of_not_contains hregularBefore hbefore,
      hzero, if_neg fun h ↦ hfree h.1]

end View

end LongMode
