import Mathlib.Data.List.Sort
import LongMode.Proofs.Memory.FirstFit
import LongMode.Proofs.Memory.Regions

/-!
Changes of a range of pages come to the same in place as at once: a new mapping at a fixed address
(`InPlace.run_map`), the removal of pages with or without holes between them (`InPlace.run_unmap`,
`InPlace.run_discardPages`), new permissions (`InPlace.run_protect`), and a store that does not ask
for permission (`InPlace.run_poke`). Each of them settles on its answer before it changes anything,
so that one that is refused leaves memory as it was.

They visit the mapped pages of the range in ascending order. Where a hole is looked for, the pages
visited so far are the first ones of the range (`AddressSpace.seekHole_numbers`).
-/

set_option autoImplicit false
set_option relaxedAutoImplicit false

namespace LongMode

namespace AddressSpace

variable (s : AddressSpace) {start : Address} {length : Nat} {r : PageRange}

/-! ### The mapped pages of a range -/

/-- The numbers of the mapped pages of a range, in order. -/
def numbers (r : PageRange) : List Nat :=
  s.pages.keys.filter r.contains

theorem pairwise_numbers (r : PageRange) : (s.numbers r).Pairwise (· < ·) :=
  (s.pages.ordered_keys.imp fun h ↦ Nat.compare_eq_lt.mp h).filter _

variable {s}

theorem mem_numbers {first count number : Nat} :
    number ∈ s.numbers ⟨first, count⟩ ↔
      s.pages.contains number = true ∧ first ≤ number ∧ number < first + count := by
  rw [numbers, List.mem_filter, Std.ExtTreeMap.mem_keys, Std.ExtTreeMap.mem_iff_contains,
    PageRange.contains_iff]

/-- A mapped page is among those of the ranges that it is in. -/
theorem mem_numbers_of_getElem? {number : Nat} {p : Page} (h : s.pages[number]? = some p) :
    number ∈ s.numbers r ↔ r.contains number = true := by
  have hmapped : s.pages.contains number = true := by
    rw [Std.ExtTreeMap.contains_eq_isSome_getElem?, h]
    rfl
  rw [mem_numbers, and_iff_right hmapped, PageRange.contains_iff]

/-- The mapped pages of a range begin with its first page, if that one is mapped. -/
theorem numbers_succ (page count : Nat) :
    s.numbers ⟨page, count + 1⟩ =
      if s.pages.contains page then page :: s.numbers ⟨page + 1, count⟩
      else s.numbers ⟨page + 1, count⟩ := by
  have hrest := s.pairwise_numbers ⟨page + 1, count⟩
  by_cases hpage : s.pages.contains page = true
  · rw [if_pos hpage]
    have hfirst : (page :: s.numbers ⟨page + 1, count⟩).Pairwise (· < ·) :=
      List.pairwise_cons.mpr ⟨fun number hnumber ↦ (mem_numbers.mp hnumber).2.1, hrest⟩
    refine (s.pairwise_numbers _).eq_of_mem_iff hfirst fun number ↦ ?_
    rw [List.mem_cons, mem_numbers, mem_numbers]
    by_cases hsame : number = page
    · subst hsame
      exact ⟨fun _ ↦ .inl rfl, fun _ ↦ ⟨hpage, by omega⟩⟩
    · rw [or_iff_right hsame]
      exact and_congr_right fun _ ↦ by omega
  · rw [if_neg hpage]
    refine (s.pairwise_numbers _).eq_of_mem_iff hrest fun number ↦ ?_
    rw [mem_numbers, mem_numbers]
    refine and_congr_right fun hnumber ↦ ?_
    have hne : number ≠ page := fun hsame ↦ hpage (hsame ▸ hnumber)
    omega

/-- A search for the lowest mapped page of a range finds the first one. -/
theorem firstMapped?_eq_head? (r : PageRange) : s.firstMapped? r = (s.numbers r).head? := by
  have hordered : s.pages.keys.Pairwise (· < ·) :=
    s.pages.ordered_keys.imp fun h ↦ Nat.compare_eq_lt.mp h
  rw [firstMapped?, getKeyGE?_eq_find?, numbers, List.head?_filter]
  generalize s.pages.keys = keys at hordered
  induction keys with
  | nil => rfl
  | cons key keys ih =>
    obtain ⟨hkey, hkeys⟩ := List.pairwise_cons.mp hordered
    by_cases hlow : r.first ≤ key
    · by_cases hhigh : key < r.stop
      · simp [PageRange.contains, hlow, hhigh]
      · -- the keys behind this one are too high as well
        have hnone : keys.find? r.contains = none := by
          refine List.find?_eq_none.mpr fun other hother hin ↦ ?_
          have hlt := hkey other hother
          rw [PageRange.contains, Bool.and_eq_true, decide_eq_true_eq, decide_eq_true_eq] at hin
          omega
        simp [PageRange.contains, hlow, hhigh, hnone, Nat.le_of_not_lt hhigh]
    · simpa [PageRange.contains, hlow] using ih hkeys

/-- The lowest page that is missing from the mapped pages of a range is its lowest hole. -/
theorem seekHole_numbers {page count : Nat} (h : (page + count) * pageSize < addressLimit) :
    seekHole (.ofPage (page + count)) (.ofPage page) ((s.numbers ⟨page, count⟩).map .ofPage) =
      (s.firstHole? page count).map .ofPage := by
  induction count generalizing page with
  | zero =>
    have hempty : s.numbers ⟨page, 0⟩ = [] := List.eq_nil_iff_forall_not_mem.mpr fun number hin ↦ by
      have hcontains := (mem_numbers.mp hin).2
      omega
    rw [hempty, List.map_nil, seekHole, Nat.add_zero, if_neg (BitVec.lt_irrefl _)]
    rfl
  | succ count ih =>
    have hstop : page + 1 + count = page + (count + 1) := Nat.add_right_comm page 1 count
    rw [← hstop] at h ⊢
    have hpage : page * pageSize < addressLimit :=
      Nat.lt_of_le_of_lt (Nat.mul_le_mul_right _ (by omega)) h
    rw [numbers_succ, firstHole?]
    by_cases hmapped : s.pages.contains page = true
    · rw [if_pos hmapped, if_pos hmapped, List.map_cons, seekHole, if_pos rfl,
        Address.ofPage_add_pageSize, ih h]
    · rw [if_neg hmapped, if_neg hmapped]
      cases hnumbers : s.numbers ⟨page + 1, count⟩ with
      | nil =>
        have hbefore : Address.ofPage page < .ofPage (page + 1 + count) := by
          rw [BitVec.lt_def, Address.toNat_ofPage hpage, Address.toNat_ofPage h]
          exact Nat.mul_lt_mul_of_pos_right (by omega) (by decide)
        rw [List.map_nil, seekHole, if_pos hbefore]
        rfl
      | cons number rest =>
        have hin : number ∈ s.numbers ⟨page + 1, count⟩ := by
          rw [hnumbers]
          exact List.mem_cons_self
        have hcontains := (mem_numbers.mp hin).2
        have hnumber : number * pageSize < addressLimit :=
          Nat.lt_of_le_of_lt (Nat.mul_le_mul_right _ (by omega)) h
        have hother : Address.ofPage number ≠ .ofPage page := fun heq ↦ by
          have hsame := (Address.ofPage_inj hnumber hpage).mp heq
          omega
        rw [List.map_cons, seekHole, if_neg hother]
        rfl

/-! ### Ranges in words -/

/-- A range of pages that is accepted ends at the same address in words. -/
theorem pagesEnd_eq (start : Address) (length : Nat) :
    pagesEnd start length = (PageRange.of? start length).map fun r ↦ .ofPage r.stop := by
  have hend : start.isPageAligned = true → start + BitVec.ofNat 64 (roundUpToPage length) =
      .ofPage (start.page + roundUpToPage length / pageSize) := fun haligned ↦ by
    have hstart := start.page_mul_add_pageOffset
    rw [Address.isPageAligned, beq_iff_eq] at haligned
    rw [haligned, Nat.add_zero] at hstart
    rw [Address.ofPage, Nat.add_mul, roundUpToPage_eq, BitVec.ofNat_add, hstart,
      Address.ofNat_toNat]
  rw [pagesEnd, PageRange.of?]
  by_cases haligned : start.isPageAligned = true
  · rw [hend haligned]
    simp only [haligned]
    split_ifs <;> rfl
  · simp only [Bool.not_eq_true] at haligned
    simp only [haligned]
    rfl

/-- The pages between the ends of a range are those of the range. -/
theorem bases_eq (h : PageRange.of? start length = .ok r) :
    s.bases start (.ofPage r.stop) = (s.numbers r).map .ofPage := by
  have hstop := PageRange.stop_lt_of_of? h
  obtain ⟨-, -, -, hr⟩ := PageRange.of?_eq_ok h
  have hfirst : r.first = start.page := by rw [hr]
  refine congrArg (List.map Address.ofPage) (List.filter_congr fun number _ ↦ ?_)
  rw [Address.toNat_ofPage hstop, PageRange.contains, hfirst]
  simp only [Nat.mul_lt_mul_right (show 0 < pageSize by decide)]

/-- Each page of a range that is accepted is found again by its first address. -/
theorem map_page_numbers (h : (PageRange.of? start length) = .ok r) :
    ((s.numbers r).map Address.ofPage).map Address.page = s.numbers r := by
  rw [List.map_map]
  refine List.map_congr_left (fun number hnumber ↦ ?_) |>.trans (List.map_id _)
  have hin := (mem_numbers.mp hnumber).2
  refine Address.page_ofPage (Nat.lt_of_le_of_lt (Nat.mul_le_mul_right _ ?_)
    (PageRange.stop_lt_of_of? h))
  exact Nat.le_of_lt hin.2

end AddressSpace

/-! ### Pages one after the other -/

section Folds

variable (pages : Std.ExtTreeMap Nat Page) (bases : List Address) (number : Nat)

theorem getElem?_foldl_erase :
    (bases.foldl (fun pages base ↦ pages.erase base.page) pages)[number]? =
      if number ∈ bases.map Address.page then none else pages[number]? := by
  induction bases generalizing pages with
  | nil => rfl
  | cons base bases ih =>
    rw [List.foldl_cons, ih, Std.ExtTreeMap.getElem?_erase, List.map_cons]
    by_cases hsame : number = base.page
    · simp [hsame]
    · simp [hsame, Ne.symm hsame]

theorem getElem?_foldl_modify {f : Page → Page} (hf : ∀ p, f (f p) = f p) :
    (bases.foldl (fun pages base ↦ pages.modify base.page f) pages)[number]? =
      (pages[number]?).map fun p ↦ if number ∈ bases.map Address.page then f p else p := by
  induction bases generalizing pages with
  | nil => simp
  | cons base bases ih =>
    rw [List.foldl_cons, ih, Std.ExtTreeMap.getElem?_modify, List.map_cons]
    by_cases hsame : number = base.page
    · subst hsame
      simp [Function.comp_def, hf]
    · simp [hsame, Ne.symm hsame]

end Folds

namespace InPlace

open Memory

variable {α : Type} {m : Memory} {start : Address} {length : Nat} {r : PageRange}

/-- Changing pages one after the other changes them all. -/
theorem ends_forM_modifyPages (f : Address → Std.ExtTreeMap Nat Page → Std.ExtTreeMap Nat Page)
    (m : Memory) (bases : List Address) :
    Ends (bases.forM fun base ↦ modifyPages (f base)) m ⟨⟩ { m with space := { m.space with
      pages := bases.foldl (fun pages base ↦ f base pages) m.space.pages } } := by
  induction bases generalizing m with
  | nil => rfl
  | cons base bases ih => exact ends_bind_iff.mpr ⟨_, _, rfl, ih _⟩

/-! ### Changes of a range -/

/-- A range is accepted in place if it is at once, and what follows is up to its pages. -/
theorem run_pagesEnd_bind {f : Address → InPlace MapError α}
    {g : PageRange → Except MapError (α × Memory)}
    (h : ∀ r, PageRange.of? start length = .ok r →
      (f (.ofPage r.stop)).run.run m = m.settle (g r)) :
    (liftM (AddressSpace.pagesEnd start length) >>= f).run.run m =
      m.settle (PageRange.of? start length >>= g) := by
  rw [AddressSpace.pagesEnd_eq]
  cases hrange : PageRange.of? start length with
  | error e => rfl
  | ok r => exact h r hrange

/-- A mapping at a fixed address enters the pages of its range, or is refused and leaves memory as
it was. -/
theorem run_map (m : Memory) (start : Address) (length : Nat) (p : Permissions) (b : Backing) :
    (map start length p b).run.run m = m.settle (m.map start length p b) := by
  refine run_pagesEnd_bind fun r hrange ↦ ?_
  have hbases := m.space.bases_eq hrange
  rw [(ends_get m).run_bind, hbases, AddressSpace.firstMapped?_eq_head?]
  cases m.space.numbers r with
  | cons number rest => rfl
  | nil =>
    obtain ⟨hstart, -, hend, hr⟩ := PageRange.of?_eq_ok hrange
    subst hr
    have hstop : Address.ofPage (start.page + roundUpToPage length / pageSize) =
        start + BitVec.ofNat 64 (roundUpToPage length / pageSize * pageSize) := by
      rw [Address.ofPage, Nat.add_mul, BitVec.ofNat_add, ← hstart, Address.ofNat_toNat]
    rw [← roundUpToPage_eq] at hend
    rw [PageRange.stop, hstop]
    exact run_insertPages m p b hstart hend

/-- In place, the same ranges are mapped throughout. -/
theorem run_requireMapped (m : Memory) (hrange : PageRange.of? start length = .ok r) :
    (requireMapped start (.ofPage r.stop)).run.run m = (m.requireMapped start r, m) := by
  obtain ⟨hstart, -⟩ := PageRange.of?_eq_ok hrange
  have hhole := m.space.seekHole_numbers (PageRange.stop_lt_of_of? hrange)
  rw [Address.ofPage_of_toNat hstart] at hhole
  rw [requireMapped, (ends_get m).run_bind, m.space.bases_eq hrange, PageRange.stop, hhole,
    Memory.requireMapped]
  cases m.space.firstHole? r.first r.count with
  | none => rfl
  | some hole => rfl

/-- The table loses as many pages as are mapped in a range that is removed. -/
theorem length_numbers (s : AddressSpace) (r : PageRange) :
    (s.numbers r).length = s.pages.size - (s.removePages r).pages.size := by
  have hsplit := s.pages.keys.length_eq_length_filter_add r.contains
  rw [AddressSpace.removePages, ← Std.ExtTreeMap.length_keys, ← Std.ExtTreeMap.length_keys,
    Std.ExtTreeMap.keys_filter_key, hsplit, Nat.add_sub_cancel]
  rfl

/-- The mapped pages of a range are removed and counted. -/
theorem ends_removePages (m : Memory) (hrange : PageRange.of? start length = .ok r) :
    Ends (removePages start (.ofPage r.stop)) m
      (m.space.pages.size - (m.space.removePages r).pages.size)
      { m with space := m.space.removePages r } := by
  have hbases := m.space.bases_eq hrange
  have hpages : (m.space.bases start (.ofPage r.stop)).foldl
      (fun pages base ↦ pages.erase base.page) m.space.pages = (m.space.removePages r).pages := by
    refine Std.ExtTreeMap.ext_getElem? fun number ↦ ?_
    rw [getElem?_foldl_erase, hbases, AddressSpace.map_page_numbers hrange,
      AddressSpace.getElem?_removePages]
    cases hpage : m.space.pages[number]? with
    | none => simp
    | some p => simp only [AddressSpace.mem_numbers_of_getElem? hpage]
  refine ends_bind_iff.mpr ⟨m, m, rfl, ends_bind_iff.mpr
    ⟨_, _, ends_forM_modifyPages (fun base pages ↦ pages.erase base.page) m _,
      ends_pure_iff.mpr ⟨?_, ?_⟩⟩⟩
  · rw [hbases, List.length_map, length_numbers]
  · rw [hpages]
    rfl

/-- The mapped pages of a range are removed in place if the range is accepted. -/
theorem run_discardPages (m : Memory) (start : Address) (length : Nat) :
    (discardPages start length).run.run m = m.settle (m.discard start length) :=
  run_pagesEnd_bind fun _ hrange ↦ ends_removePages m hrange

/-- The mapped pages of a range are given new permissions. -/
theorem ends_setPermissions (m : Memory) (p : Permissions)
    (hrange : PageRange.of? start length = .ok r) :
    Ends (do ((← get).space.bases start (.ofPage r.stop)).forM fun base =>
        modifyPages (·.modify base.page fun page => { page with attributes.permissions := p }))
      m ⟨⟩ { m with space := m.space.setPermissions r p } := by
  have hpages : (m.space.bases start (.ofPage r.stop)).foldl (fun pages base ↦
      pages.modify base.page fun page ↦ { page with attributes.permissions := p }) m.space.pages =
        (m.space.setPermissions r p).pages := by
    refine Std.ExtTreeMap.ext_getElem? fun number ↦ ?_
    rw [getElem?_foldl_modify _ _ _ (f := fun page ↦ { page with attributes.permissions := p })
      fun _ ↦ rfl, m.space.bases_eq hrange,
      AddressSpace.map_page_numbers hrange, AddressSpace.getElem?_setPermissions]
    cases hpage : m.space.pages[number]? with
    | none => rfl
    | some q => simp only [Option.map_some, AddressSpace.mem_numbers_of_getElem? hpage]
  refine ends_bind_iff.mpr ⟨m, m, rfl, ?_⟩
  have hends := ends_forM_modifyPages (fun base pages ↦
    pages.modify base.page fun page ↦ { page with attributes.permissions := p }) m
    (m.space.bases start (.ofPage r.stop))
  rwa [hpages] at hends

/-- What follows a check that a range is mapped throughout is carried out if the check succeeds. -/
theorem run_requireMapped_bind {f : InPlace MapError Unit} {after : Memory}
    (hrange : PageRange.of? start length = .ok r) (hf : Ends f m () after) :
    (requireMapped start (.ofPage r.stop) >>= fun _ ↦ f).run.run m =
      m.settle ((do m.requireMapped start r; .ok after).map ((), ·)) := by
  have hmapped := run_requireMapped m hrange
  cases hthroughout : m.requireMapped start r with
  | error e =>
    rw [hthroughout] at hmapped
    exact run_bind_of_error hmapped
  | ok =>
    rw [hthroughout] at hmapped
    rw [Ends.run_bind hmapped, hf]
    rfl

/-- The pages of a range are removed in place if all of them are mapped. -/
theorem run_unmap (m : Memory) (start : Address) (length : Nat) :
    (unmap start length).run.run m = m.settle ((m.unmap start length).map ((), ·)) := by
  refine (run_pagesEnd_bind fun r hrange ↦ run_requireMapped_bind hrange ?_).trans
    (congrArg m.settle (map_bind _ _ _).symm)
  exact ends_bind_iff.mpr ⟨_, _, ends_removePages m hrange, rfl⟩

/-- The pages of a range are given new permissions in place if all of them are mapped. -/
theorem run_protect (m : Memory) (start : Address) (length : Nat) (p : Permissions) :
    (protect start length p).run.run m = m.settle ((m.protect start length p).map ((), ·)) :=
  (run_pagesEnd_bind fun _ hrange ↦
      run_requireMapped_bind hrange (ends_setPermissions m p hrange)).trans
    (congrArg m.settle (map_bind _ _ _).symm)

/-! ### Stores that do not ask for permission -/

theorem ends_pokeChunk {a : Address} (bytes : List UInt8) (h : ∃ p, m.page? a = some p) :
    Ends (pokeChunk ⟨a.page, a.pageOffset, bytes⟩) m ()
      { m with frames := storePiece m.space m.frames ⟨a.page, a.pageOffset, bytes⟩ } := by
  obtain ⟨p, hpage⟩ := h
  rw [page?] at hpage
  refine ends_bind_iff.mpr ⟨m, m, rfl, ?_⟩
  simp only [hpage, storePiece]
  rfl

/-- A store in place that does not ask for permission stores the whole string, or is refused and
leaves memory as it was. -/
theorem run_poke (m : Memory) (a : Address) (bytes : List UInt8) :
    (poke a bytes).run.run m = m.settle ((m.poke a bytes).map ((), ·)) := by
  rw [poke, (ends_get m).run_bind, Memory.poke]
  cases hcheck : m.checkRange .write false a bytes.length with
  | error fault => exact run_liftM_bind_of_error rfl
  | ok =>
    have hmapped : ∀ i < bytes.length, ∃ p, m.page? (a + BitVec.ofNat 64 i) = some p :=
      fun i hi ↦ (page?_of_checkRange hcheck hi).2.imp fun _ h ↦ h.1
    have hend : a.toNat + bytes.length ≤ addressLimit := by
      have hlimit := a.toNat_lt
      rcases (m.checkRange_eq_ok .write false a bytes.length).mp hcheck with hzero | ⟨hend, -⟩
      · omega
      · exact hend
    have hstored := ends_forM_chunks (Q := fun a ↦ ∃ p, m.page? a = some p)
      (fun m' a bytes hspace hstores ↦ ends_pokeChunk bytes (by rwa [page?, hspace]))
      a bytes hmapped m rfl
    rw [(ends_liftM rfl).run_bind, hstored, ← pieces_eq_chunks a bytes hend]
    rfl

end InPlace

end LongMode
