import LongMode.Proofs.Memory.Chunks
import LongMode.Proofs.Memory.Mapping

/-!
Where a mapping without a fixed address goes. An address fits if it is a page boundary of the
mapping window from which enough bytes of the window lie in no mapped page (`AddressSpace.Fits`).
The search moves a cursor past the mapped pages, in their order. Every place that the cursor has
left behind is blocked by a page, and no page that it has passed blocks the place where it is
(`skipMapped_spec`); so the search finds the lowest address that fits, and fails only if none does
(`firstFit?_spec`). With cursors that are words of 64 bits it comes to the same, also where a sum
leaves the range of words (`seekFit?_eq`).

A mapping is then refused for a length that has no pages, for want of a place, or for a run of
frames that is too short, and for nothing else (`mapAnywhere_first_fit`).
-/

set_option autoImplicit false
set_option relaxedAutoImplicit false

namespace LongMode

namespace AddressSpace

variable {s : AddressSpace} {count : Nat}

/-! ### Places -/

/-- `length` bytes from a page boundary on are in the mapping window, and in no mapped page. -/
structure Fits (s : AddressSpace) (length : Nat) (start : Address) : Prop where
  /-- The address is a page boundary. -/
  aligned : start.isPageAligned = true
  /-- The window does not begin behind it. -/
  low : s.window.base ≤ start
  /-- The window does not end before the last byte. -/
  high : start.toNat + length ≤ s.window.stop.toNat
  /-- No page holds one of the bytes. -/
  free : ∀ n, start.toNat ≤ n → n < start.toNat + length → s.pages[n / pageSize]? = none

/-- The lowest address that fits. -/
structure FirstFit (s : AddressSpace) (length : Nat) (start : Address) : Prop extends
    s.Fits length start where
  /-- No lower address fits. -/
  least : ∀ other, s.Fits length other → start ≤ other

/-- `count` pages from one on are in the mapping window, and no mapped page is among them. -/
structure Gap (s : AddressSpace) (count number : Nat) : Prop where
  /-- The window does not begin behind them. -/
  low : s.window.base.toNat ≤ number * pageSize
  /-- The window does not end before the last of them. -/
  high : (number + count) * pageSize ≤ s.window.stop.toNat
  /-- Mapped pages come before or behind. -/
  free : ∀ page ∈ s.pages.keys, page < number ∨ number + count ≤ page

/-- An address fits whole pages if it is the first one of its page and these are a gap. -/
theorem fits_iff_gap {start : Address} :
    s.Fits (count * pageSize) start ↔
      start.toNat = start.page * pageSize ∧ s.Gap count start.page := by
  have hsum := start.page_mul_add_pageOffset
  constructor
  · rintro ⟨haligned, hlow, hhigh, hfree⟩
    rw [Address.isPageAligned, beq_iff_eq] at haligned
    rw [haligned, Nat.add_zero] at hsum
    refine ⟨hsum.symm, by rw [hsum]; exact hlow, by rw [Nat.add_mul, hsum]; exact hhigh, ?_⟩
    intro page hpage
    by_contra hinside
    refine (s.getElem?_eq_none_iff page).mp ?_ hpage
    have hnone := hfree (page * pageSize) (by simp only [pageSize] at *; omega)
      (by simp only [pageSize] at *; omega)
    rwa [Nat.mul_div_cancel _ (by decide)] at hnone
  · rintro ⟨haligned, hlow, hhigh, hfree⟩
    refine ⟨?_, ?_, ?_, fun n hn hlt ↦ ?_⟩
    · rw [Address.isPageAligned, beq_iff_eq]
      omega
    · rw [BitVec.le_def, haligned]
      exact hlow
    · rw [haligned, ← Nat.add_mul]
      exact hhigh
    · rw [getElem?_eq_none_iff]
      intro hpage
      have hside := hfree _ hpage
      simp only [pageSize] at *
      omega

/-! ### The cursor -/

theorem le_skipMapped (count candidate : Nat) (pages : List Nat) :
    candidate ≤ skipMapped count candidate pages := by
  induction pages generalizing candidate with
  | nil => exact Nat.le_refl _
  | cons page rest ih =>
    rw [skipMapped]
    split
    · exact Nat.le_refl _
    · exact Nat.le_trans (Nat.le_max_left _ _) (ih _)

/-- No page blocks the place that the cursor comes to, and some page blocks each place that it left
behind. -/
theorem skipMapped_spec (count candidate : Nat) {pages : List Nat}
    (hordered : pages.Pairwise (· < ·)) :
    (∀ page ∈ pages, page < skipMapped count candidate pages ∨
        skipMapped count candidate pages + count ≤ page) ∧
      ∀ other, candidate ≤ other → other < skipMapped count candidate pages →
        ∃ page ∈ pages, other ≤ page ∧ page < other + count := by
  induction pages generalizing candidate with
  | nil =>
    refine ⟨fun page hpage ↦ absurd hpage List.not_mem_nil, fun other hlow hhigh ↦ ?_⟩
    exact absurd hhigh (Nat.not_lt_of_le hlow)
  | cons page rest ih =>
    rw [List.pairwise_cons] at hordered
    rw [skipMapped]
    split
    next hfit =>
      -- the pages behind this one are out of the way as well
      refine ⟨fun k hk ↦ .inr ?_, fun other hlow hhigh ↦ absurd hhigh (Nat.not_lt_of_le hlow)⟩
      rcases List.mem_cons.mp hk with rfl | hrest
      · exact hfit
      · exact Nat.le_trans hfit (Nat.le_of_lt (hordered.1 k hrest))
    next hblocked =>
      obtain ⟨hpassed, hleft⟩ := ih (max candidate (page + 1)) hordered.2
      have hcursor := le_skipMapped count (max candidate (page + 1)) rest
      constructor
      · intro k hk
        rcases List.mem_cons.mp hk with rfl | hrest
        · exact .inl (by omega)
        · exact hpassed k hrest
      · intro other hlow hhigh
        rcases Nat.lt_or_ge other (max candidate (page + 1)) with hlt | hge
        · exact ⟨page, List.mem_cons_self, by omega, by omega⟩
        · obtain ⟨k, hk, hblocks⟩ := hleft other hge hhigh
          exact ⟨k, List.mem_cons_of_mem _ hk, hblocks⟩

/-! ### The search -/

/-- The mapped pages that a search in the window from a page on comes across. -/
def mappedFrom (s : AddressSpace) (first : Nat) : List Nat :=
  s.pages.keys.filter fun page ↦ first ≤ page && page * pageSize < s.window.stop.toNat

theorem mem_mappedFrom {first page : Nat} :
    page ∈ s.mappedFrom first ↔
      page ∈ s.pages.keys ∧ first ≤ page ∧ page * pageSize < s.window.stop.toNat := by
  rw [mappedFrom, List.mem_filter, Bool.and_eq_true, decide_eq_true_eq, decide_eq_true_eq]

theorem pairwise_mappedFrom (s : AddressSpace) (first : Nat) :
    (s.mappedFrom first).Pairwise (· < ·) := by
  refine (s.pages.ordered_keys.imp fun h ↦ ?_).filter _
  exact Nat.compare_eq_lt.mp h

/-- The page that a search begins at. -/
theorem pageCeil?_spec (a : Address) :
    (a.pageCeil? = none → ∀ number, a.toNat ≤ number * pageSize →
        addressLimit ≤ number * pageSize) ∧
      ∀ b, a.pageCeil? = some b → b.toNat = b.page * pageSize ∧
        ∀ number, a.toNat ≤ number * pageSize ↔ b.page ≤ number := by
  rw [Address.pageCeil?]
  by_cases hlimit : a.toNat + (pageSize - 1) < addressLimit
  · rw [if_pos hlimit]
    refine ⟨by simp, fun b hb ↦ ?_⟩
    have htoNat : b.toNat = roundUpToPage a.toNat := by
      rw [← Option.some.inj hb, BitVec.toNat_ofNat]
      refine Nat.mod_eq_of_lt (Nat.lt_of_le_of_lt ?_ hlimit)
      exact Nat.div_mul_le_self _ _
    simp only [Address.page, htoNat, roundUpToPage, pageSize]
    exact ⟨by omega, fun number ↦ by omega⟩
  · rw [if_neg hlimit]
    refine ⟨fun _ number hle ↦ ?_, by simp⟩
    simp only [pageSize, addressLimit] at *
    omega

/-- The place that the cursor comes to is before every gap, and it is one if it ends in the
window. -/
theorem gap_skipMapped (s : AddressSpace) (count : Nat) {first : Nat}
    (hfirst : ∀ number, s.window.base.toNat ≤ number * pageSize ↔ first ≤ number) :
    (∀ number, s.Gap count number → skipMapped count first (s.mappedFrom first) ≤ number) ∧
      ((skipMapped count first (s.mappedFrom first) + count) * pageSize ≤ s.window.stop.toNat →
        s.Gap count (skipMapped count first (s.mappedFrom first))) := by
  obtain ⟨hpassed, hleft⟩ := skipMapped_spec count first (s.pairwise_mappedFrom first)
  have hcursor := le_skipMapped count first (s.mappedFrom first)
  refine ⟨fun number hgap ↦ ?_, fun hhigh ↦ ⟨(hfirst _).mpr hcursor, hhigh, fun page hpage ↦ ?_⟩⟩
  · by_contra hbefore
    obtain ⟨page, hpage, hblocks⟩ := hleft number ((hfirst number).mp hgap.low)
      (Nat.lt_of_not_le hbefore)
    have hside := hgap.free page (mem_mappedFrom.mp hpage).1
    omega
  · by_cases hmapped : page ∈ s.mappedFrom first
    · exact hpassed page hmapped
    · rw [mem_mappedFrom, not_and, not_and] at hmapped
      have hbehind := hmapped hpage
      simp only [pageSize] at *
      omega

/-- A search finds the first gap, or there is none. -/
theorem firstFit?_gap (hcount : 0 < count) :
    (s.firstFit? count = none → ∀ number, ¬s.Gap count number) ∧
      ∀ found, s.firstFit? count = some found →
        s.Gap count found ∧ ∀ number, s.Gap count number → found ≤ number := by
  obtain ⟨hnone, hsome⟩ := pageCeil?_spec s.window.base
  have hlimit := s.window.stop.toNat_lt
  rw [firstFit?]
  cases hbase : s.window.base.pageCeil? with
  | none =>
    refine ⟨fun _ number hgap ↦ ?_, by simp⟩
    have hpast := hnone hbase number hgap.low
    have hhigh := hgap.high
    rw [Nat.add_mul] at hhigh
    omega
  | some base =>
    obtain ⟨haligned, hfirst⟩ := hsome base hbase
    obtain ⟨hbefore, hgap⟩ := gap_skipMapped s count hfirst
    simp only [Option.bind_eq_bind, Option.bind_some]
    split
    next hempty =>
      -- a window without a page boundary has no gap
      refine ⟨fun _ number hgap ↦ ?_, by simp⟩
      have hlow := (hfirst number).mp hgap.low
      have hhigh := hgap.high
      rw [haligned] at hempty
      simp only [pageSize] at *
      omega
    next =>
      rw [← mappedFrom]
      split
      next hend =>
        refine ⟨by simp, fun found hfound ↦ ?_⟩
        rw [← Option.some.inj hfound]
        exact ⟨hgap hend, hbefore⟩
      next hend =>
        refine ⟨fun _ number hother ↦ hend (Nat.le_trans ?_ hother.high), by simp⟩
        exact Nat.mul_le_mul_right _ (Nat.add_le_add_right (hbefore number hother) _)

/-- A search finds the lowest address that fits, or there is none. -/
theorem firstFit?_spec (hcount : 0 < count) :
    (s.firstFit? count = none ↔ ∀ start, ¬s.Fits (count * pageSize) start) ∧
      ∀ found, s.firstFit? count = some found →
        found * pageSize < addressLimit ∧ s.FirstFit (count * pageSize) (.ofPage found) := by
  obtain ⟨hnone, hsome⟩ := firstFit?_gap (s := s) hcount
  have hfound (found : Nat) (h : s.firstFit? count = some found) :
      found * pageSize < addressLimit ∧ s.FirstFit (count * pageSize) (.ofPage found) := by
    obtain ⟨hgap, hleast⟩ := hsome found h
    have hlimit : found * pageSize < addressLimit := by
      refine Nat.lt_of_le_of_lt (Nat.le_trans ?_ hgap.high) s.window.stop.toNat_lt
      exact Nat.mul_le_mul_right _ (Nat.le_add_right _ _)
    have htoNat : (Address.ofPage found).toNat = found * pageSize := Address.toNat_ofPage hlimit
    have hpage : (Address.ofPage found).page = found := Address.page_ofPage hlimit
    refine ⟨hlimit, ⟨fits_iff_gap.mpr (by rw [hpage]; exact ⟨htoNat, hgap⟩), ?_⟩⟩
    intro other hother
    obtain ⟨haligned, hgapOther⟩ := fits_iff_gap.mp hother
    rw [BitVec.le_def, htoNat, haligned]
    exact Nat.mul_le_mul_right _ (hleast _ hgapOther)
  refine ⟨⟨fun h start hfits ↦ hnone h _ (fits_iff_gap.mp hfits).2, fun h ↦ ?_⟩, hfound⟩
  cases hfit : s.firstFit? count with
  | none => rfl
  | some found => exact absurd (hfound found hfit).2.toFits (h _)

/-! ### The search in words -/

/-- A cursor that is a word goes where the cursor goes, unless the bytes from there on reach the end
of memory. -/
theorem seek_spec (count : Nat) {pages : List Nat} {cursor : Address} {candidate : Nat}
    (hpages : ∀ page ∈ pages, page * pageSize < addressLimit)
    (hcursor : cursor.toNat = candidate * pageSize) :
    (seek (count * pageSize) cursor (pages.map .ofPage) = none →
        addressLimit ≤ (skipMapped count candidate pages + count) * pageSize) ∧
      ∀ found, seek (count * pageSize) cursor (pages.map .ofPage) = some found →
        found.toNat = skipMapped count candidate pages * pageSize := by
  induction pages generalizing cursor candidate with
  | nil =>
    refine ⟨by simp [seek], fun found hfound ↦ ?_⟩
    rw [← Option.some.inj hfound, hcursor, skipMapped]
  | cons page rest ih =>
    have hpage : (Address.ofPage page).toNat = page * pageSize :=
      Address.toNat_ofPage (hpages page List.mem_cons_self)
    have hrest (k : Nat) (hk : k ∈ rest) := hpages k (List.mem_cons_of_mem _ hk)
    rw [List.map_cons, seek]
    by_cases hend : addressLimit ≤ cursor.toNat + count * pageSize
    · rw [if_pos hend]
      refine ⟨fun _ ↦ ?_, by simp⟩
      have hle := le_skipMapped count candidate (page :: rest)
      rw [hcursor, ← Nat.add_mul] at hend
      exact Nat.le_trans hend (Nat.mul_le_mul_right _ (Nat.add_le_add_right hle _))
    · have hfit : cursor + BitVec.ofNat 64 (count * pageSize) ≤ Address.ofPage page ↔
          candidate + count ≤ page := by
        rw [BitVec.le_def, cursor.toNat_add_ofNat (Nat.lt_of_not_le hend), hpage, hcursor,
          ← Nat.add_mul]
        exact Nat.mul_le_mul_right_iff (by decide)
      rw [if_neg hend, skipMapped]
      by_cases hle : candidate + count ≤ page
      · rw [if_pos (hfit.mpr hle), if_pos hle]
        refine ⟨by simp, fun found hfound ↦ ?_⟩
        rw [← Option.some.inj hfound, hcursor]
      · rw [if_neg (mt hfit.mp hle), if_neg hle]
        -- the last page of memory would leave no room for the bytes, so the sum does not wrap
        have hbehind : (Address.ofPage page + BitVec.ofNat 64 pageSize).toNat =
            (page + 1) * pageSize := by
          rw [Address.toNat_add_ofNat _ (by
            rw [hpage]
            simp only [pageSize, addressLimit] at *
            omega), hpage, Nat.succ_mul]
        refine ih hrest ?_
        simp only [BitVec.lt_def, hbehind, hcursor]
        split
        next hlt =>
          rw [hbehind]
          simp only [pageSize] at *
          omega
        next hge =>
          rw [hcursor]
          simp only [pageSize] at *
          omega

/-- The search in words finds what the search finds. -/
theorem seekFit?_eq (s : AddressSpace) (count : Nat) :
    s.seekFit? (count * pageSize) = (s.firstFit? count).map .ofPage := by
  obtain ⟨-, hsome⟩ := pageCeil?_spec s.window.base
  have hlimit : s.window.stop.toNat < addressLimit := s.window.stop.toNat_lt
  rw [seekFit?, firstFit?]
  cases hbase : s.window.base.pageCeil? with
  | none => rfl
  | some base =>
    simp only [Option.bind_eq_bind, Option.bind_some, BitVec.le_def]
    split
    · rfl
    · rw [← mappedFrom]
      obtain ⟨hnone, hfound⟩ := seek_spec count
        (fun page hpage ↦ Nat.lt_trans (mem_mappedFrom.mp hpage).2.2 hlimit) (hsome base hbase).1
      cases hseek : seek (count * pageSize) base ((s.mappedFrom base.page).map .ofPage) with
      | none =>
        have hpast := hnone hseek
        rw [if_neg (Nat.not_le_of_lt (Nat.lt_of_lt_of_le hlimit hpast))]
        rfl
      | some found =>
        have htoNat := hfound found hseek
        have hofPage := Address.ofPage_of_toNat htoNat
        rw [Option.bind_some, htoNat, ← Nat.add_mul]
        split
        next hend =>
          rw [if_neg (Nat.not_le_of_lt (Nat.lt_of_lt_of_le hlimit hend))]
          rfl
        next hend =>
          rw [found.toNat_add_ofNat (by rw [htoNat, ← Nat.add_mul]; exact Nat.lt_of_not_le hend),
            htoNat, ← Nat.add_mul]
          split
          · exact congrArg some hofPage.symm
          · rfl

/-! ### Refusals -/

theorem FirstFit.unique {length : Nat} {start other : Address} (h : s.FirstFit length start)
    (h' : s.FirstFit length other) : start = other :=
  BitVec.le_antisymm (h.least other h'.toFits) (h'.least start h.toFits)

/-- What a mapping without a fixed address is refused with. -/
inductive RefusesMapping (s : AddressSpace) (length : Nat) (b : Backing) : MapError → Prop
  /-- There is nothing to map, or rounding up to whole pages passes 2^64. -/
  | noPages (h : length = 0 ∨ addressLimit ≤ length + (pageSize - 1)) :
    s.RefusesMapping length b (.invalidLength 0 length)
  /-- The pages fit nowhere. -/
  | noPlace (hpos : length ≠ 0) (hround : length + (pageSize - 1) < addressLimit)
    (h : ¬∃ start, s.Fits (roundUpToPage length) start) :
    s.RefusesMapping length b (.outOfAddressSpace (roundUpToPage length))
  /-- The pages fit, but there are fewer shared frames than pages. -/
  | tooShort (hpos : length ≠ 0) (hround : length + (pageSize - 1) < addressLimit)
    (start : Address) (h : s.FirstFit (roundUpToPage length) start) (shared : SharedFrames)
    (hbacking : b = .shared shared) (hshort : shared.length < roundUpToPage length) :
    s.RefusesMapping length b (.invalidLength start (roundUpToPage length))

end AddressSpace

/-- A length that is not zero has a page. -/
theorem pages_pos {length : Nat} (h : length ≠ 0) : 0 < roundUpToPage length / pageSize := by
  simp only [roundUpToPage, pageSize]
  omega

namespace Memory

variable {m : Memory} {length : Nat} {p : Permissions} {b : Backing}

/-- The check of a length refuses one that is zero or cannot be rounded up. -/
theorem invalidLength_iff :
    (decide (length = 0) || decide (addressLimit ≤ length + (pageSize - 1))) = true ↔
      ¬(length ≠ 0 ∧ length + (pageSize - 1) < addressLimit) := by
  rw [Bool.or_eq_true, decide_eq_true_eq, decide_eq_true_eq]
  omega

/-- A mapping in whole pages, where there is a place for it. -/
theorem mapAnywhere_of_firstFit? {found : Nat} (hpos : length ≠ 0)
    (hround : length + (pageSize - 1) < addressLimit)
    (h : m.space.firstFit? (roundUpToPage length / pageSize) = some found) :
    m.mapAnywhere length p b = m.insertPages ⟨found, roundUpToPage length / pageSize⟩ p b := by
  rw [mapAnywhere, if_neg (mt invalidLength_iff.mp (not_not_intro ⟨hpos, hround⟩))]
  simp only [h]

theorem mapAnywhere_of_firstFit?_eq_none (hpos : length ≠ 0)
    (hround : length + (pageSize - 1) < addressLimit)
    (h : m.space.firstFit? (roundUpToPage length / pageSize) = none) :
    m.mapAnywhere length p b = .error (.outOfAddressSpace (roundUpToPage length)) := by
  rw [mapAnywhere, if_neg (mt invalidLength_iff.mp (not_not_intro ⟨hpos, hround⟩))]
  simp only [h, roundUpToPage_eq]

/-- Pages are refused only for want of shared frames. -/
theorem insertPages_eq_error_iff {r : PageRange} {e : MapError} :
    m.insertPages r p b = .error e ↔
      ∃ shared, b = .shared shared ∧ shared.count < r.count ∧
        e = .invalidLength (.ofPage r.first) (r.count * pageSize) := by
  rw [insertPages]
  cases b with
  | anonymous => simp [prepareFrames, bind, Except.bind]
  | file name data offset => simp [prepareFrames, bind, Except.bind]
  | shared shared =>
    by_cases hcount : shared.count < r.count
    · simp [prepareFrames, bind, Except.bind, hcount, eq_comm]
    · simp [prepareFrames, bind, Except.bind, hcount]

/-- A mapping without a fixed address is refused with what `RefusesMapping` says. -/
theorem mapAnywhere_eq_error_iff {e : MapError} :
    m.mapAnywhere length p b = .error e ↔ m.space.RefusesMapping length b e := by
  by_cases hvalid : length ≠ 0 ∧ length + (pageSize - 1) < addressLimit
  · obtain ⟨hpos, hround⟩ := hvalid
    obtain ⟨hnone, hsome⟩ := m.space.firstFit?_spec (pages_pos hpos)
    rw [roundUpToPage_eq] at hnone hsome
    cases hfit : m.space.firstFit? (roundUpToPage length / pageSize) with
    | none =>
      rw [mapAnywhere_of_firstFit?_eq_none hpos hround hfit, Except.error.injEq]
      have hnowhere := not_exists.mpr (hnone.mp hfit)
      constructor
      · rintro rfl
        exact .noPlace hpos hround hnowhere
      · rintro (h | _ | ⟨_, _, start, hstart⟩)
        · omega
        · rfl
        · exact absurd ⟨start, hstart.toFits⟩ hnowhere
    | some found =>
      obtain ⟨-, hfirst⟩ := hsome found hfit
      rw [mapAnywhere_of_firstFit? hpos hround hfit, insertPages_eq_error_iff, roundUpToPage_eq]
      have hshort (shared : SharedFrames) : shared.length < roundUpToPage length ↔
          shared.count < roundUpToPage length / pageSize := by
        have hscale := Nat.mul_lt_mul_right (a := pageSize) (b := shared.count)
          (c := roundUpToPage length / pageSize) (by decide)
        rwa [roundUpToPage_eq] at hscale
      constructor
      · rintro ⟨shared, hbacking, hcount, rfl⟩
        exact .tooShort hpos hround _ hfirst shared hbacking ((hshort shared).mpr hcount)
      · rintro (h | ⟨_, _, hnowhere⟩ | ⟨_, _, start, hstart, shared, hbacking, hlength⟩)
        · omega
        · exact absurd ⟨_, hfirst.toFits⟩ hnowhere
        · exact ⟨shared, hbacking, (hshort shared).mp hlength, by rw [hstart.unique hfirst]⟩
  · rw [mapAnywhere, if_pos (invalidLength_iff.mpr hvalid), Except.error.injEq]
    constructor
    · rintro rfl
      exact .noPages (by omega)
    · rintro (_ | ⟨hpos, hround⟩ | ⟨hpos, hround⟩)
      · rfl
      · exact absurd ⟨hpos, hround⟩ hvalid
      · exact absurd ⟨hpos, hround⟩ hvalid

end Memory

namespace InPlace

open Memory

variable {m : Memory}

/-! ### One page after the other -/

/-- Entering pages one after the other enters them all. -/
theorem ends_forM_insert (m : Memory) (number : Nat → Nat) (entry : Nat → Page)
    {body : Nat → InPlace MapError PUnit} {count : Nat}
    (hbody : ∀ i < count, body i = modify fun m ↦ { m with
      space := { m.space with pages := m.space.pages.insert (number i) (entry i) } }) :
    Ends ((List.range count).forM body) m ⟨⟩
      { m with
        space := { m.space with
          pages := (List.range count).foldl (fun pages i ↦ pages.insert (number i) (entry i))
            m.space.pages } } := by
  induction count with
  | zero => rfl
  | succ count ih =>
    rw [List.range_succ, ends_forM_concat_iff]
    refine ⟨_, ih fun i hi ↦ hbody i (Nat.lt_succ_of_lt hi), ?_⟩
    rw [hbody count (Nat.lt_succ_self _), ends_modify_iff, List.foldl_append]
    rfl

/-- The pages of a range that does not reach the end of memory are entered, or too few frames are
shared for them. -/
theorem run_insertPages (m : Memory) {start : Address} {count : Nat} (p : Permissions)
    (b : Backing) (haligned : start.toNat = start.page * pageSize)
    (hend : start.toNat + count * pageSize < addressLimit) :
    (insertPages start (start + BitVec.ofNat 64 (count * pageSize)) p b).run.run m =
      m.settle (m.insertPages ⟨start.page, count⟩ p b) := by
  have hcount : (start + BitVec.ofNat 64 (count * pageSize) - start).toNat / pageSize = count := by
    have hlimit : count * pageSize < 2 ^ 64 := Nat.lt_of_le_of_lt (Nat.le_add_left _ _) hend
    rw [BitVec.add_comm, BitVec.add_sub_cancel, BitVec.toNat_ofNat, Nat.mod_eq_of_lt hlimit,
      Nat.mul_div_cancel _ (by decide)]
  have hpage (i : Nat) (hi : i ≤ count) :
      (start + BitVec.ofNat 64 (i * pageSize)).page = start.page + i := by
    have hle : i * pageSize ≤ count * pageSize := Nat.mul_le_mul_right _ hi
    rw [start.page_add_ofNat (by omega), haligned, ← Nat.add_mul, Nat.mul_div_cancel _ (by decide)]
  have hstart : Address.ofPage start.page = start := Address.ofPage_of_toNat haligned
  rw [insertPages, hcount, (ends_get m).run_bind, Memory.insertPages, hstart]
  cases hprepare : prepareFrames m.frames start count b with
  | error e => exact run_liftM_bind_of_error rfl
  | ok prepared =>
    obtain ⟨first, frames⟩ := prepared
    have hframes : Ends (modifyFrames fun _ ↦ frames : InPlace MapError Unit) m ()
      { m with frames } := rfl
    rw [(ends_liftM rfl).run_bind, hframes.run_bind]
    -- up to `count`, the pages at multiples of the page size are those that follow the first one
    refine (Ends.run_bind (ends_forM_insert { m with frames } (start.page + ·)
      (fun i ↦ ⟨⟨p, b.kind, b.name⟩, first + i⟩) fun i hi ↦ ?_)).trans ?_
    · simp only [hpage i (Nat.le_of_lt hi)]
    · rw [hpage count (Nat.le_refl _)]
      rfl

/-- A mapping in place is a mapping without a fixed address; if it is refused, memory is as it
was. -/
theorem run_mapAnywhere (m : Memory) (length : Nat) (p : Permissions) (b : Backing) :
    (mapAnywhere length p b).run.run m = m.settle (m.mapAnywhere length p b) := by
  rw [mapAnywhere]
  by_cases hvalid : length ≠ 0 ∧ length + (pageSize - 1) < addressLimit
  · obtain ⟨hpos, hround⟩ := hvalid
    have hseek := m.space.seekFit?_eq (roundUpToPage length / pageSize)
    rw [roundUpToPage_eq] at hseek
    rw [if_neg (mt invalidLength_iff.mp (not_not_intro ⟨hpos, hround⟩))]
    change (get >>= _ : InPlace MapError Region).run.run m = _
    rw [(ends_get m).run_bind, hseek]
    cases hfit : m.space.firstFit? (roundUpToPage length / pageSize) with
    | none =>
      rw [mapAnywhere_of_firstFit?_eq_none hpos hround hfit]
      rfl
    | some found =>
      obtain ⟨hlimit, hfirst⟩ := (m.space.firstFit?_spec (pages_pos hpos)).2 found hfit
      obtain ⟨haligned, -⟩ := AddressSpace.fits_iff_gap.mp hfirst.toFits
      have hpage : (Address.ofPage found).page = found := Address.page_ofPage hlimit
      have hrun := run_insertPages m p b haligned
        (Nat.lt_of_le_of_lt hfirst.high m.space.window.stop.toNat_lt)
      rw [roundUpToPage_eq, hpage] at hrun
      rw [mapAnywhere_of_firstFit? hpos hround hfit]
      exact hrun
  · have hinvalid := invalidLength_iff.mpr hvalid
    rw [if_pos hinvalid, Memory.mapAnywhere, if_pos hinvalid]
    rfl

/-! ### Mapping anywhere -/

/-- A mapping without a fixed address goes to the lowest place that fits. If it is refused, then
with what `RefusesMapping` says and with nothing else, and memory is as it was. If it is not, the
pages from the lowest address that fits on are the region that it answers with; they have the
permissions and the origin that were asked for and consecutive frames that were prepared, and the
other entries of the table are those it had. -/
theorem mapAnywhere_first_fit (m : Memory) (length : Nat) (p : Permissions) (b : Backing) :
    (∀ e after, (mapAnywhere length p b).run.run m = (.error e, after) ↔
        after = m ∧ m.space.RefusesMapping length b e) ∧
      ∀ region after, (mapAnywhere length p b).run.run m = (.ok region, after) →
        ∃ start first,
          m.space.FirstFit (roundUpToPage length) start ∧
          region = ⟨start.page, start.page + roundUpToPage length / pageSize,
            ⟨p, b.kind, b.name⟩⟩ ∧
          prepareFrames m.frames start (roundUpToPage length / pageSize) b =
            .ok (first, after.frames) ∧
          after.space.window = m.space.window ∧
          ∀ number, after.space.pages[number]? =
            if start.page ≤ number ∧ number < start.page + roundUpToPage length / pageSize then
              some ⟨⟨p, b.kind, b.name⟩, first + (number - start.page)⟩
            else m.space.pages[number]? := by
  rw [run_mapAnywhere]
  constructor
  · intro e after
    rw [← mapAnywhere_eq_error_iff]
    exact settle_eq_error_iff
  · intro region after h
    have hok : m.mapAnywhere length p b = .ok (region, after) := settle_eq_ok_iff.mp h
    obtain ⟨found, hfit, hinsert⟩ := mapAnywhere_eq_ok hok
    obtain ⟨first, hprepare, hregion, hwindow, hpages⟩ := insertPages_eq_ok hinsert
    have hpos : length ≠ 0 := by
      rintro rfl
      cases hok.symm.trans (mapAnywhere_eq_error_iff.mpr (.noPages (.inl rfl)))
    obtain ⟨hlimit, hfirst⟩ := (m.space.firstFit?_spec (pages_pos hpos)).2 found hfit
    have hpage : (Address.ofPage found).page = found := Address.page_ofPage hlimit
    rw [roundUpToPage_eq] at hfirst
    refine ⟨.ofPage found, first, hfirst, ?_, hprepare, hwindow, fun number ↦ ?_⟩
    · rw [hregion, hpage]
      rfl
    · rw [hpages, hpage]
      simp only [PageRange.contains_iff]

end InPlace

end LongMode
