import Mathlib.Data.List.Chain
import LongMode.Memory.InPlace
import LongMode.Proofs.Memory.World

/-!
The regions of an address space are the run-length form of its page table. A list of regions is
canonical for what the addresses have in common with their neighbours (`Extent.Canonical`) if its
regions are not empty, begin and end at page boundaries and ascend without overlap, if an address
has given attributes just in case one region with these attributes holds it, and if no region goes
on where the one before it ends. There is only one such list (`Extent.Canonical.unique`).

Putting the pages together from the last one back gives it page by page (`Region.runs_regions`), and
so does putting them together from the first one on, in words of 64 bits and with the latest region
extended in place: none of the sums leaves the range of words, and the regions are the same
(`AddressSpace.extents?_eq`). So the regions tell what all pages are like, and nothing else
(`World.regions_canonical`).
-/

set_option autoImplicit false
set_option relaxedAutoImplicit false

namespace LongMode

/-! ### Regions by their pages -/

namespace Region

/-- A region by its addresses. -/
def extent (r : Region) : Extent :=
  ⟨.ofPage r.first, .ofPage r.stop, r.attributes⟩

/-- A region goes on where another one ends. -/
def Continues (r s : Region) : Prop :=
  r.stop = s.first ∧ r.attributes = s.attributes

instance (r s : Region) : Decidable (r.Continues s) :=
  inferInstanceAs (Decidable (r.stop = s.first ∧ r.attributes = s.attributes))

/-- Regions that ascend, none of them empty or going on with the one before it, which hold the pages
of given attributes. -/
structure Runs (f : Nat → Option PageAttributes) (regions : List Region) : Prop where
  nonempty (r : Region) : r ∈ regions → r.first < r.stop
  ascending : regions.Pairwise fun r s ↦ r.stop ≤ s.first
  holds (number : Nat) (attributes : PageAttributes) : f number = some attributes ↔
    ∃ r ∈ regions, (r.first ≤ number ∧ number < r.stop) ∧ r.attributes = attributes
  maximal : regions.IsChain fun r s ↦ ¬r.Continues s

variable {r s : Region} {rest : List Region}

theorem prepend_cons_of_continues (h : r.Continues s) :
    r.prepend (s :: rest) = { r with stop := s.stop } :: rest :=
  if_pos h

theorem prepend_cons_of_not_continues (h : ¬r.Continues s) :
    r.prepend (s :: rest) = r :: s :: rest :=
  if_neg h

/-- Two regions of which the second goes on with the first are put in front like one. -/
theorem prepend_prepend (h : r.Continues s) (regions : List Region) :
    r.prepend (s.prepend regions) = { r with stop := s.stop }.prepend regions := by
  cases regions with
  | nil => exact prepend_cons_of_continues h
  | cons t rest =>
    by_cases hnext : s.Continues t
    · have hall : { r with stop := s.stop }.Continues t := ⟨hnext.1, h.2.trans hnext.2⟩
      rw [prepend_cons_of_continues hnext, prepend_cons_of_continues hall]
      exact prepend_cons_of_continues h
    · have hall : ¬{ r with stop := s.stop }.Continues t := fun hall ↦
        hnext ⟨hall.1, h.2.symm.trans hall.2⟩
      rw [prepend_cons_of_not_continues hnext, prepend_cons_of_not_continues hall]
      exact prepend_cons_of_continues h

/-- What is put in front of other regions begins them, alone or as their beginning. -/
theorem exists_prepend_eq (r : Region) (regions : List Region) :
    ∃ stop rest, r.prepend regions = { r with stop } :: rest := by
  cases regions with
  | nil => exact ⟨r.stop, [], rfl⟩
  | cons s rest =>
    by_cases h : r.Continues s
    · exact ⟨s.stop, rest, prepend_cons_of_continues h⟩
    · exact ⟨r.stop, s :: rest, prepend_cons_of_not_continues h⟩

theorem prepend_prepend_of_not_continues (h : ¬r.Continues s) (regions : List Region) :
    r.prepend (s.prepend regions) = r :: s.prepend regions := by
  obtain ⟨stop, rest, hrest⟩ := s.exists_prepend_eq regions
  rw [hrest]
  exact prepend_cons_of_not_continues h

/-- A region in front of ascending ones adds its pages to theirs. -/
theorem Runs.prepend {f : Nat → Option PageAttributes} {regions : List Region}
    (h : Runs f regions) (hr : r.first < r.stop) (hbefore : ∀ s ∈ regions, r.stop ≤ s.first) :
    Runs (fun number ↦ if r.first ≤ number ∧ number < r.stop then some r.attributes else f number)
      (r.prepend regions) := by
  have hadded (number : Nat) (attributes : PageAttributes) :
      (if r.first ≤ number ∧ number < r.stop then some r.attributes else f number) =
          some attributes ↔
        ((r.first ≤ number ∧ number < r.stop) ∧ r.attributes = attributes) ∨
          ∃ s ∈ regions, (s.first ≤ number ∧ number < s.stop) ∧ s.attributes = attributes := by
    by_cases hin : r.first ≤ number ∧ number < r.stop
    · rw [if_pos hin, Option.some.injEq]
      refine ⟨fun heq ↦ .inl ⟨hin, heq⟩, ?_⟩
      rintro (⟨-, heq⟩ | ⟨s, hs, hins, -⟩)
      · exact heq
      · exact absurd (hbefore s hs) (by omega)
    · rw [if_neg hin, h.holds]
      exact ⟨.inr, fun hor ↦ hor.resolve_left fun hfirst ↦ hin hfirst.1⟩
  cases regions with
  | nil =>
    refine ⟨fun t ht ↦ ?_, List.pairwise_singleton _ _, fun number attributes ↦ ?_, ?_⟩
    · rw [List.mem_singleton.mp ht]
      exact hr
    · rw [hadded]
      simp [Region.prepend]
    · exact List.isChain_singleton _
  | cons s rest =>
    obtain ⟨hnonempty, hascending, -, hmaximal⟩ := h
    obtain ⟨hfirst, hrest⟩ := List.pairwise_cons.mp hascending
    have hs := hnonempty s List.mem_cons_self
    have hrs := hbefore s List.mem_cons_self
    by_cases hcontinues : r.Continues s
    · rw [prepend_cons_of_continues hcontinues]
      refine ⟨fun t ht ↦ ?_, List.pairwise_cons.mpr ⟨hfirst, hrest⟩, fun number attributes ↦ ?_, ?_⟩
      · rcases List.mem_cons.mp ht with rfl | ht
        · exact Nat.lt_trans hr (Nat.lt_of_le_of_lt hrs hs)
        · exact hnonempty t (List.mem_cons_of_mem _ ht)
      · -- the pages of both are those of the longer one
        obtain ⟨hstop, hattributes⟩ := hcontinues
        rw [hadded]
        simp only [List.exists_mem_cons_iff, ← hattributes, ← or_assoc, ← or_and_right]
        refine or_congr (and_congr_left fun _ ↦ ?_) Iff.rfl
        omega
      · cases rest with
        | nil => exact List.isChain_singleton _
        | cons t rest =>
          rw [List.isChain_cons_cons] at hmaximal ⊢
          exact ⟨fun hall ↦ hmaximal.1 ⟨hall.1, hcontinues.2.symm.trans hall.2⟩, hmaximal.2⟩
    · rw [prepend_cons_of_not_continues hcontinues]
      refine ⟨fun t ht ↦ ?_, List.pairwise_cons.mpr ⟨hbefore, hascending⟩,
        fun number attributes ↦ ?_, List.isChain_cons_cons.mpr ⟨hcontinues, hmaximal⟩⟩
      · rcases List.mem_cons.mp ht with rfl | ht
        · exact hr
        · exact hnonempty t ht
      · rw [hadded]
        simp only [List.exists_mem_cons_iff]

/-- Pages in ascending order, put together from the last one back, are the runs of the attributes
that they have. -/
theorem runs_foldr_prepend {entries : List (Nat × Page)}
    (hascending : entries.Pairwise fun e e' ↦ e.1 < e'.1) {f : Nat → Option PageAttributes}
    (hf : ∀ number attributes, f number = some attributes ↔
      ∃ p, (number, p) ∈ entries ∧ p.attributes = attributes) :
    Runs f ((entries.map ofPage).foldr Region.prepend []) := by
  induction entries generalizing f with
  | nil =>
    refine ⟨fun r hr ↦ absurd hr List.not_mem_nil, .nil, fun number attributes ↦ ?_, .nil⟩
    rw [hf]
    simp
  | cons e entries ih =>
    obtain ⟨number, p⟩ := e
    obtain ⟨hfirst, hrest⟩ := List.pairwise_cons.mp hascending
    -- the pages behind the first one are those of the tail
    have hruns := ih hrest (f := fun n ↦ if n = number then none else f n) fun n attributes ↦ by
      by_cases hn : n = number
      · subst hn
        simp only [if_true, reduceCtorEq, false_iff, not_exists, not_and]
        intro q hq
        exact absurd (hfirst _ hq) (Nat.lt_irrefl n)
      · simp [hn, hf]
    have hadded : f = fun n ↦ if number ≤ n ∧ n < number + 1 then some p.attributes
        else if n = number then none else f n := by
      funext n
      by_cases hn : n = number
      · subst hn
        simpa using (hf n p.attributes).mpr ⟨p, List.mem_cons_self, rfl⟩
      · have hout : ¬(number ≤ n ∧ n < number + 1) := by omega
        rw [if_neg hout, if_neg hn]
    rw [hadded, List.map_cons, List.foldr_cons]
    refine hruns.prepend (r := ofPage (number, p)) (Nat.lt_succ_self number) fun s hs ↦ ?_
    have hmapped := (hruns.holds s.first s.attributes).mpr
      ⟨s, hs, ⟨Nat.le_refl _, hruns.nonempty s hs⟩, rfl⟩
    by_cases hn : s.first = number
    · simp [hn] at hmapped
    · rw [if_neg hn, hf] at hmapped
      obtain ⟨q, hq, -⟩ := hmapped
      exact hfirst _ ((List.mem_cons.mp hq).resolve_left fun heq ↦ hn (congrArg Prod.fst heq))

end Region

namespace AddressSpace

/-- What an address has in common with its neighbours, if it is mapped. -/
def attributes? (s : AddressSpace) (a : Address) : Option PageAttributes :=
  (s.pages[a.page]?).map Page.attributes

theorem ascending_toList (s : AddressSpace) : s.pages.toList.Pairwise fun e e' ↦ e.1 < e'.1 :=
  s.pages.ordered_keys_toList.imp Nat.compare_eq_lt.mp

theorem mem_toList_iff (s : AddressSpace) (number : Nat) (p : Page) :
    (number, p) ∈ s.pages.toList ↔ s.pages[number]? = some p :=
  Std.ExtTreeMap.mem_toList_iff_getElem?_eq_some

/-- The regions of an address space are the runs of its pages. -/
theorem runs_regions (s : AddressSpace) :
    Region.Runs (fun number ↦ (s.pages[number]?).map Page.attributes) s.regions := by
  refine Region.runs_foldr_prepend s.ascending_toList fun number attributes ↦ ?_
  simp only [Option.map_eq_some_iff, mem_toList_iff]

end AddressSpace

/-! ### Regions in words -/

namespace Address

/-- Going on by the bytes of a page leads from the first address of a page to that of the next. -/
theorem ofPage_add_pageSize (number : Nat) :
    ofPage number + BitVec.ofNat 64 pageSize = ofPage (number + 1) := by
  rw [ofPage, ofPage, ← BitVec.ofNat_add, Nat.succ_mul]

/-- Where a page ends below 2^64, so does the sum that leads to its end. -/
theorem toNat_ofPage_add_lt {number : Nat} (h : (number + 1) * pageSize < addressLimit) :
    (ofPage number).toNat + pageSize < addressLimit := by
  rw [Nat.succ_mul] at h
  rwa [toNat_ofPage (Nat.lt_of_le_of_lt (Nat.le_add_right _ _) h)]

/-- Pages below 2^64 have first addresses of their own. -/
theorem ofPage_inj {number other : Nat} (h : number * pageSize < addressLimit)
    (h' : other * pageSize < addressLimit) : ofPage number = ofPage other ↔ number = other := by
  refine ⟨fun heq ↦ ?_, congrArg ofPage⟩
  rw [← page_ofPage h, heq, page_ofPage h']

end Address

namespace Extent

/-- The first page of all begins a region. -/
theorem report_nil {number : Nat} {p : Page} (h : (number + 1) * pageSize < addressLimit) :
    report [] (.ofPage number) p = some ([Region.ofPage (number, p)].map Region.extent) := by
  rw [report, if_pos (Address.toNat_ofPage_add_lt h), Address.ofPage_add_pageSize]
  rfl

/-- A page extends the latest region, or begins one. -/
theorem report_cons {r : Region} {earlier : List Region} {number : Nat} {p : Page}
    (hr : r.stop * pageSize < addressLimit) (h : (number + 1) * pageSize < addressLimit) :
    report ((r :: earlier).map Region.extent) (.ofPage number) p =
      some ((if r.Continues (.ofPage (number, p)) then { r with stop := number + 1 } :: earlier
        else .ofPage (number, p) :: r :: earlier).map Region.extent) := by
  have htouch : (r.extent.stop = .ofPage number ∧ r.extent.attributes = p.attributes) ↔
      r.Continues (.ofPage (number, p)) :=
    and_congr_left fun _ ↦ Address.ofPage_inj hr
      (Nat.lt_of_le_of_lt (Nat.mul_le_mul_right _ (Nat.le_succ number)) h)
  rw [List.map_cons, report, if_pos (Address.toNat_ofPage_add_lt h), Address.ofPage_add_pageSize]
  simp only [htouch]
  by_cases hcontinues : r.Continues (.ofPage (number, p))
  · rw [if_pos hcontinues, if_pos hcontinues]
    rfl
  · rw [if_neg hcontinues, if_neg hcontinues]
    rfl

/-- Pages in order, after the regions before them: the latest region goes on with them as far as it
can. -/
theorem foldlM_report {entries : List (Nat × Page)}
    (hentries : ∀ e ∈ entries, (e.1 + 1) * pageSize < addressLimit) {r : Region}
    (hr : r.stop * pageSize < addressLimit) (earlier : List Region) :
    entries.foldlM (fun reported e ↦ report reported (.ofPage e.1) e.2)
        ((r :: earlier).map Region.extent) =
      some (((r.prepend ((entries.map Region.ofPage).foldr Region.prepend [])).reverse
        ++ earlier).map Region.extent) := by
  induction entries generalizing r earlier with
  | nil => rfl
  | cons e entries ih =>
    obtain ⟨number, p⟩ := e
    have hlast := hentries _ List.mem_cons_self
    have hlater := fun e he ↦ hentries e (List.mem_cons_of_mem _ he)
    rw [List.foldlM_cons, report_cons hr hlast, Option.bind_eq_bind, Option.bind_some,
      List.map_cons, List.foldr_cons]
    by_cases hcontinues : r.Continues (.ofPage (number, p))
    · rw [if_pos hcontinues, ih hlater (r := { r with stop := number + 1 }) hlast,
        Region.prepend_prepend hcontinues]
      rfl
    · rw [if_neg hcontinues, ih hlater (r := .ofPage (number, p)) hlast,
        Region.prepend_prepend_of_not_continues hcontinues, List.reverse_cons, List.append_assoc,
        List.singleton_append]

end Extent

namespace AddressSpace

/-- Where every page ends below 2^64, putting the regions together in words leaves no sum out of
range, and gives the regions. -/
theorem extents?_eq {s : AddressSpace} (hpages : ∀ (number : Nat) (p : Page),
    s.pages[number]? = some p → (number + 1) * pageSize < addressLimit) :
    s.extents? = some (s.regions.map Region.extent) := by
  have hentries : ∀ e ∈ s.pages.toList, (e.1 + 1) * pageSize < addressLimit := fun e he ↦
    hpages e.1 e.2 ((s.mem_toList_iff e.1 e.2).mp he)
  have hpagewise : s.extents? = (s.pages.toList.foldlM
      (fun reported e ↦ Extent.report reported (.ofPage e.1) e.2) []).map List.reverse := by
    rw [extents?, entries, List.foldlM_map]
  rw [hpagewise, regions]
  cases hlist : s.pages.toList with
  | nil => rfl
  | cons e rest =>
    rw [hlist] at hentries
    have hfirst := hentries e List.mem_cons_self
    have hrest := fun e he ↦ hentries e (List.mem_cons_of_mem _ he)
    rw [List.foldlM_cons, Extent.report_nil hfirst, Option.bind_eq_bind, Option.bind_some,
      Extent.foldlM_report hrest (r := .ofPage e) hfirst, List.append_nil, Option.map_some,
      List.map_reverse, List.reverse_reverse]
    rfl

end AddressSpace

/-! ### Canonical lists of regions -/

namespace Extent

/-- Regions that are not empty, begin and end at page boundaries and ascend without overlap, that
hold the addresses of given attributes, and of which none goes on where the one before it ends. -/
structure Canonical (f : Address → Option PageAttributes) (extents : List Extent) : Prop where
  nonempty (e : Extent) : e ∈ extents → e.start < e.stop
  aligned (e : Extent) : e ∈ extents → e.start.isPageAligned ∧ e.stop.isPageAligned
  ascending : extents.Pairwise fun e e' ↦ e.stop ≤ e'.start
  holds (a : Address) (attributes : PageAttributes) :
    f a = some attributes ↔ ∃ e ∈ extents, e.contains a ∧ e.attributes = attributes
  maximal : extents.IsChain fun e e' ↦ e.stop = e'.start → e.attributes ≠ e'.attributes

theorem contains_iff (e : Extent) (a : Address) : e.contains a ↔ e.start ≤ a ∧ a < e.stop := by
  simp [contains]

/-- One of two regions ends before the other one begins. -/
def Apart (e e' : Extent) : Prop :=
  e.stop ≤ e'.start ∨ e'.stop ≤ e.start

instance symm_apart : Std.Symm Apart :=
  ⟨fun _ _ ↦ Or.symm⟩

theorem contains_start {e : Extent} (h : e.start < e.stop) : e.contains e.start :=
  (e.contains_iff e.start).mpr ⟨BitVec.le_refl _, h⟩

namespace Canonical

variable {f g : Address → Option PageAttributes} {e e' : Extent} {rest rest' extents : List Extent}

/-- No two regions share an address. -/
theorem eq_of_contains (h : Canonical f extents) {a : Address} (he : e ∈ extents)
    (he' : e' ∈ extents) (ha : e.contains a) (ha' : e'.contains a) : e = e' := by
  rw [contains_iff] at ha ha'
  by_contra hne
  have happart : extents.Pairwise Apart := h.ascending.imp Or.inl
  rcases happart.forall he he' hne with hle | hle
  · bv_omega
  · bv_omega

/-- An address has given attributes just in case exactly one region with these attributes holds
it. -/
theorem holds_once (h : Canonical f extents) (a : Address) (attributes : PageAttributes) :
    f a = some attributes ↔
      ∃! e, (e ∈ extents ∧ e.contains a) ∧ e.attributes = attributes := by
  rw [h.holds]
  constructor
  · rintro ⟨e, he, ha, hattributes⟩
    exact ⟨e, ⟨⟨he, ha⟩, hattributes⟩, fun e' he' ↦ h.eq_of_contains he'.1.1 he he'.1.2 ha⟩
  · rintro ⟨e, ⟨⟨he, ha⟩, hattributes⟩, -⟩
    exact ⟨e, he, ha, hattributes⟩

/-- The first region begins at the lowest address that has attributes. -/
theorem start_le (h : Canonical f (e :: rest)) {a : Address} {attributes : PageAttributes}
    (ha : f a = some attributes) : e.start ≤ a := by
  obtain ⟨x, hx, hxa, -⟩ := (h.holds a attributes).mp ha
  rw [contains_iff] at hxa
  rcases List.mem_cons.mp hx with rfl | hx
  · exact hxa.1
  · have hbefore := (List.pairwise_cons.mp h.ascending).1 x hx
    have hnonempty := h.nonempty e List.mem_cons_self
    bv_omega

theorem apply_start (h : Canonical f (e :: rest)) : f e.start = some e.attributes :=
  (h.holds _ _).mpr ⟨e, List.mem_cons_self, contains_start (h.nonempty e List.mem_cons_self), rfl⟩

/-- What comes behind the first region is not like it. -/
theorem apply_stop_ne (h : Canonical f (e :: rest)) : f e.stop ≠ some e.attributes := by
  intro hlike
  obtain ⟨x, hx, hstop, hattributes⟩ := (h.holds _ _).mp hlike
  rw [contains_iff] at hstop
  rcases List.mem_cons.mp hx with rfl | hx
  · bv_omega
  · obtain ⟨hfirst, hlater⟩ := List.pairwise_cons.mp h.ascending
    have hx' := hfirst x hx
    cases rest with
    | nil => exact List.not_mem_nil hx
    | cons y rest =>
      rcases List.mem_cons.mp hx with rfl | hx
      · have htouch : e.stop = x.start := BitVec.le_antisymm hx' hstop.1
        exact (List.isChain_cons_cons.mp h.maximal).1 htouch hattributes.symm
      · -- a region behind the second one begins too late
        have hy := hfirst y List.mem_cons_self
        have hyx := (List.pairwise_cons.mp hlater).1 x hx
        have hnonempty := h.nonempty y (List.mem_cons_of_mem _ List.mem_cons_self)
        bv_omega

/-- Of two first regions that begin alike, none is longer. -/
theorem stop_le (h : Canonical f (e :: rest)) (h' : Canonical f (e' :: rest'))
    (hstart : e.start = e'.start) (hattributes : e.attributes = e'.attributes) :
    e'.stop ≤ e.stop := by
  by_contra hlonger
  refine h.apply_stop_ne ((h'.holds _ _).mpr ⟨e', List.mem_cons_self, ?_, hattributes.symm⟩)
  have hnonempty := h.nonempty e List.mem_cons_self
  rw [contains_iff]
  bv_omega

/-- Without the first region, the others are canonical for the addresses behind it. -/
theorem tail (h : Canonical f (e :: rest)) :
    Canonical (fun a ↦ if a < e.stop then none else f a) rest := by
  obtain ⟨hfirst, hlater⟩ := List.pairwise_cons.mp h.ascending
  refine ⟨fun x hx ↦ h.nonempty x (List.mem_cons_of_mem _ hx),
    fun x hx ↦ h.aligned x (List.mem_cons_of_mem _ hx), hlater, fun a attributes ↦ ?_,
    h.maximal.tail⟩
  by_cases ha : a < e.stop
  · simp only [ha, if_true, reduceCtorEq, false_iff, not_exists, not_and]
    intro x hx hxa
    have hbefore := hfirst x hx
    rw [contains_iff] at hxa
    bv_omega
  · have hout : ¬e.contains a := by
      rw [contains_iff]
      exact fun hin ↦ ha hin.2
    rw [if_neg ha, h.holds, List.exists_mem_cons_iff, or_iff_right fun hin ↦ hout hin.1]

/-- There is one canonical list. -/
theorem unique {others : List Extent} (h : Canonical f extents) (h' : Canonical f others) :
    extents = others := by
  induction extents generalizing f others with
  | nil =>
    cases others with
    | nil => rfl
    | cons e' rest' =>
      obtain ⟨x, hx, -⟩ := (h.holds _ _).mp h'.apply_start
      exact absurd hx List.not_mem_nil
  | cons e rest ih =>
    cases others with
    | nil =>
      obtain ⟨x, hx, -⟩ := (h'.holds _ _).mp h.apply_start
      exact absurd hx List.not_mem_nil
    | cons e' rest' =>
      have hstart : e.start = e'.start :=
        BitVec.le_antisymm (h.start_le h'.apply_start) (h'.start_le h.apply_start)
      have hattributes : e.attributes = e'.attributes := by
        rw [← Option.some.injEq, ← h.apply_start, hstart, h'.apply_start]
      have hstop : e.stop = e'.stop :=
        BitVec.le_antisymm (h'.stop_le h hstart.symm hattributes.symm)
          (h.stop_le h' hstart hattributes)
      have hsame : e = e' := by
        cases e
        cases e'
        simp_all only
      subst hsame
      rw [ih h.tail h'.tail]

end Canonical

end Extent

namespace Region

variable {f : Nat → Option PageAttributes} {regions : List Region}

/-- The addresses of a region are those of its pages. -/
theorem contains_extent {r : Region} (hfirst : r.first * pageSize < addressLimit)
    (hstop : r.stop * pageSize < addressLimit) (a : Address) :
    r.extent.contains a ↔ r.first ≤ a.page ∧ a.page < r.stop := by
  rw [Extent.contains_iff, BitVec.le_def, BitVec.lt_def, extent, Address.toNat_ofPage hfirst,
    Address.toNat_ofPage hstop, Address.page, Nat.le_div_iff_mul_le (by decide),
    Nat.div_lt_iff_lt_mul (by decide)]

/-- Runs of pages that end below 2^64 are canonical for the addresses of the pages. -/
theorem Runs.canonical (h : Runs f regions)
    (hbound : ∀ (number : Nat) (attributes : PageAttributes),
      f number = some attributes → (number + 1) * pageSize < addressLimit) :
    Extent.Canonical (fun a ↦ f a.page) (regions.map extent) := by
  have hstop : ∀ r ∈ regions, r.stop * pageSize < addressLimit := fun r hr ↦ by
    have hnonempty := h.nonempty r hr
    have hlast := hbound (r.stop - 1) r.attributes
      ((h.holds _ _).mpr ⟨r, hr, by omega, rfl⟩)
    rwa [Nat.sub_add_cancel (by omega)] at hlast
  have hfirst : ∀ r ∈ regions, r.first * pageSize < addressLimit := fun r hr ↦
    Nat.lt_of_le_of_lt (Nat.mul_le_mul_right _ (Nat.le_of_lt (h.nonempty r hr))) (hstop r hr)
  refine ⟨?_, ?_, ?_, fun a attributes ↦ ?_, ?_⟩
  · simp only [List.forall_mem_map]
    intro r hr
    rw [BitVec.lt_def, extent, Address.toNat_ofPage (hfirst r hr),
      Address.toNat_ofPage (hstop r hr)]
    exact Nat.mul_lt_mul_of_pos_right (h.nonempty r hr) (by decide)
  · simp only [List.forall_mem_map]
    intro r hr
    exact ⟨Address.isPageAligned_ofPage _, Address.isPageAligned_ofPage _⟩
  · rw [List.pairwise_map]
    refine h.ascending.imp_of_mem fun {r s} hr hs hle ↦ ?_
    rw [BitVec.le_def, extent, extent, Address.toNat_ofPage (hstop r hr),
      Address.toNat_ofPage (hfirst s hs)]
    exact Nat.mul_le_mul_right _ hle
  · simp only [h.holds, List.mem_map, exists_exists_and_eq_and]
    refine exists_congr fun r ↦ and_congr_right fun hr ↦ and_congr_left fun _ ↦ ?_
    exact (contains_extent (hfirst r hr) (hstop r hr) a).symm
  · rw [List.isChain_map]
    refine h.maximal.imp_of_mem_imp fun r s hr hs hbreak htouch hlike ↦ hbreak ⟨?_, hlike⟩
    exact (Address.ofPage_inj (hstop r hr) (hfirst s hs)).mp htouch

end Region

namespace AddressSpace

/-- Where every page ends below 2^64, the regions are canonical for what the addresses have in
common with their neighbours. -/
theorem canonical_regions {s : AddressSpace} (hpages : ∀ (number : Nat) (p : Page),
    s.pages[number]? = some p → (number + 1) * pageSize < addressLimit) :
    Extent.Canonical s.attributes? (s.regions.map Region.extent) := by
  refine s.runs_regions.canonical fun number attributes hmapped ↦ ?_
  obtain ⟨p, hp, -⟩ := Option.map_eq_some_iff.mp hmapped
  exact hpages number p hp

end AddressSpace

namespace World

/-- After every history of a machine, the regions of an address space are put together from its
pages without a sum that leaves the range of words, and are what `AddressSpace.regions` says: the
canonical list, and the only one, for what the addresses have in common with their neighbours. An
address is mapped with given attributes just in case exactly one region with these attributes holds
it. So the address spaces of any machines are alike everywhere just in case their regions are
equal. -/
theorem regions_canonical (windows windows' : Nat → MapWindow) (history history' : List Action)
    (k k' : Nat) :
    let s := ((start windows).after history).spaces k
    let s' := ((start windows').after history').spaces k'
    (∃ extents, s.extents? = some extents ∧ extents = s.regions.map Region.extent ∧
      Extent.Canonical s.attributes? extents ∧
      (∀ others, Extent.Canonical s.attributes? others → others = extents) ∧
      ∀ a attributes, s.attributes? a = some attributes ↔
        ∃! e, (e ∈ extents ∧ e.contains a) ∧ e.attributes = attributes) ∧
    ((∀ a, s.attributes? a = s'.attributes? a) ↔ s.extents? = s'.extents?) := by
  intro s s'
  have hpages := (wellFormed_after windows history).page_lt k
  have hpages' := (wellFormed_after windows' history').page_lt k'
  have hcanonical : Extent.Canonical s.attributes? (s.regions.map Region.extent) :=
    AddressSpace.canonical_regions hpages
  have hcanonical' : Extent.Canonical s'.attributes? (s'.regions.map Region.extent) :=
    AddressSpace.canonical_regions hpages'
  have hextents : s.extents? = some (s.regions.map Region.extent) :=
    AddressSpace.extents?_eq hpages
  have hextents' : s'.extents? = some (s'.regions.map Region.extent) :=
    AddressSpace.extents?_eq hpages'
  refine ⟨⟨_, hextents, rfl, hcanonical, fun others h ↦ h.unique hcanonical,
    hcanonical.holds_once⟩, fun halike ↦ ?_, fun hequal a ↦ ?_⟩
  · have hsame : s'.attributes? = s.attributes? := funext fun a ↦ (halike a).symm
    rw [hsame] at hcanonical'
    rw [hextents, hextents', hcanonical.unique hcanonical']
  · -- the regions with given attributes that hold the address are the same
    rw [hextents, hextents', Option.some.injEq] at hequal
    rw [hequal] at hcanonical
    refine Option.ext fun attributes ↦ ?_
    rw [hcanonical.holds, hcanonical'.holds]

end World

end LongMode
