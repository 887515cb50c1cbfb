import LongMode.Proofs.Memory.FirstFit
import LongMode.Proofs.Memory.World

/-!
What a change of the page table comes to, for pages and for frames alike.

* Bytes that span pages are accepted as a range (`PageRange.of?_eq_ok_iff`).
* New pages with frames that were never given out are pages of zeros, and share nothing with other
  pages (`Memory.Renewed`); it does not matter whether the frames were set apart for sharing first
  (`renewed_insertPages`).
* Removing pages and giving them permissions touches no frame (`Memory.Removed`,
  `Memory.Protected`). The one is never refused for what is mapped (`exists_discard`), the other
  only if a page is missing (`protect_eq_ok_iff`).
-/

set_option autoImplicit false
set_option relaxedAutoImplicit false

namespace LongMode

/-! ### Bytes that span pages -/

/-- `length` bytes from a page boundary on, rounded up to whole pages, are not none and end below
2^64. -/
structure Address.Spans (a : Address) (length : Nat) : Prop where
  /-- The address is a page boundary. -/
  aligned : a.isPageAligned = true
  /-- There is a byte. -/
  pos : 0 < length
  /-- The whole pages end below 2^64. -/
  stop_lt : a.toNat + roundUpToPage length < addressLimit

namespace Address

theorem toNat_of_isPageAligned {a : Address} (h : a.isPageAligned = true) :
    a.toNat = a.page * pageSize := by
  rw [isPageAligned, beq_iff_eq] at h
  have hsum := a.page_mul_add_pageOffset
  rw [h, Nat.add_zero] at hsum
  exact hsum.symm

theorem isPageAligned_iff {a : Address} : a.isPageAligned = true ↔ a.toNat = a.page * pageSize := by
  refine ⟨toNat_of_isPageAligned, fun h ↦ ?_⟩
  rw [isPageAligned, pageOffset, h, Nat.mul_mod_left]
  rfl

end Address

theorem roundUpToPage_self (length : Nat) :
    roundUpToPage (roundUpToPage length) = roundUpToPage length := by
  simp only [roundUpToPage, pageSize]
  omega

theorem roundUpToPage_pos {length : Nat} : 0 < roundUpToPage length ↔ 0 < length := by
  simp only [roundUpToPage, pageSize]
  omega

@[simp] theorem Address.spans_roundUpToPage {a : Address} {length : Nat} :
    a.Spans (roundUpToPage length) ↔ a.Spans length := by
  constructor
  · rintro ⟨haligned, hlength, hstop⟩
    exact ⟨haligned, roundUpToPage_pos.mp hlength, roundUpToPage_self length ▸ hstop⟩
  · rintro ⟨haligned, hlength, hstop⟩
    exact ⟨haligned, roundUpToPage_pos.mpr hlength, (roundUpToPage_self length).symm ▸ hstop⟩

namespace PageRange

/-- The whole pages of `length` bytes from a page boundary on. -/
def ofBytes (a : Address) (length : Nat) : PageRange :=
  ⟨a.page, roundUpToPage length / pageSize⟩

@[simp] theorem first_ofBytes (a : Address) (length : Nat) :
    (ofBytes a length).first = a.page := rfl

@[simp] theorem count_ofBytes (a : Address) (length : Nat) :
    (ofBytes a length).count = roundUpToPage length / pageSize := rfl

@[simp] theorem ofBytes_roundUpToPage (a : Address) (length : Nat) :
    ofBytes a (roundUpToPage length) = ofBytes a length := by
  rw [ofBytes, ofBytes, roundUpToPage_self]

/-- Bytes are accepted as a range if they span pages. -/
theorem of?_eq_ok_iff {a : Address} {length : Nat} {r : PageRange} :
    of? a length = .ok r ↔ a.Spans length ∧ r = ofBytes a length := by
  constructor
  · intro h
    obtain ⟨haligned, hpos, hend, hr⟩ := of?_eq_ok h
    have hfirst : r.first = a.page := by rw [hr]
    rw [hfirst] at haligned
    exact ⟨⟨Address.isPageAligned_iff.mpr haligned, hpos, hend⟩, hr⟩
  · rintro ⟨⟨haligned, hpos, hend⟩, rfl⟩
    have hround : length + (pageSize - 1) < addressLimit := by
      simp only [roundUpToPage, pageSize, addressLimit] at hend ⊢
      omega
    have hvalid := mt Memory.invalidLength_iff.mp
      (not_not_intro ⟨Nat.ne_of_gt hpos, hround⟩)
    rw [of?, haligned, if_neg (by decide), if_neg hvalid, if_neg (Nat.not_le_of_lt hend)]
    rfl

theorem of?_ofBytes {a : Address} {length : Nat} (h : a.Spans length) :
    of? a length = .ok (ofBytes a length) :=
  of?_eq_ok_iff.mpr ⟨h, rfl⟩

/-- Bytes that span no pages are refused. -/
theorem exists_of?_eq_error {a : Address} {length : Nat} (h : ¬a.Spans length) :
    ∃ e, of? a length = .error e := by
  cases hrange : of? a length with
  | error e => exact ⟨e, rfl⟩
  | ok r => exact absurd (of?_eq_ok_iff.mp hrange).1 h

end PageRange

namespace Memory

variable {m m' : Memory} {a : Address} {length : Nat} {r : PageRange} {p : Permissions}

/-! ### Free pages -/

/-- No page of a range is mapped. -/
def Vacant (m : Memory) (r : PageRange) : Prop :=
  ∀ number, r.contains number → m.space.pages[number]? = none

theorem vacant_congr (h : m'.space = m.space) : m'.Vacant r ↔ m.Vacant r := by
  rw [Vacant, Vacant, h]

theorem firstMapped?_eq_none_iff : m.space.firstMapped? r = none ↔ m.Vacant r :=
  m.space.firstMapped?_eq_none r

theorem isFree_iff : m.isFree a length = true ↔ a.Spans length ∧ m.Vacant (.ofBytes a length) := by
  rw [isFree]
  by_cases hspans : a.Spans length
  · simp only [PageRange.of?_ofBytes hspans, Option.isNone_iff_eq_none, firstMapped?_eq_none_iff,
      hspans, true_and]
  · obtain ⟨e, he⟩ := PageRange.exists_of?_eq_error hspans
    simp [he, hspans]

end Memory

namespace AddressSpace

variable {s : AddressSpace} {a : Address} {length : Nat}

theorem Fits.spans (h : s.Fits (roundUpToPage length) a) (hpos : 0 < length) : a.Spans length :=
  ⟨h.aligned, hpos, Nat.lt_of_le_of_lt h.high s.window.stop.toNat_lt⟩

/-- The pages from an address that fits on are free. -/
theorem Fits.none_of_contains (h : s.Fits (roundUpToPage length) a) {number : Nat}
    (hnumber : (PageRange.ofBytes a length).contains number = true) : s.pages[number]? = none := by
  rw [← roundUpToPage_eq, fits_iff_gap] at h
  rw [PageRange.contains_iff, PageRange.first_ofBytes, PageRange.count_ofBytes] at hnumber
  rw [getElem?_eq_none_iff]
  intro hmapped
  have hside := h.2.free number hmapped
  omega

end AddressSpace

/-! ### Unused frames -/

/-- A backing that gives `count` new pages the next frames of a store `s`: these are still to be
given out in the store `s₀`, or were set apart for sharing there. -/
structure Backing.Unused (b : Backing) (count : Nat) (s s₀ : FrameStore) : Prop where
  /-- The new pages get the next frames. -/
  prepare (start : Address) : Memory.prepareFrames s₀ start count b = .ok (s.allocate count)
  /-- No frame has changed. -/
  frames (id : FrameId) : s₀.frame id = s.frame id

namespace Backing

theorem unused_anonymous (count : Nat) (s : FrameStore) : Unused .anonymous count s s :=
  ⟨fun _ ↦ rfl, fun _ ↦ rfl⟩

/-- A run of frames that was just made has frames that nothing uses. -/
theorem unused_of_shareFrames {m m₀ : Memory} {length : Nat} {run : SharedFrames}
    (h : m.shareFrames length = .ok (run, m₀)) :
    Unused (.shared run) (roundUpToPage length / pageSize) m.frames m₀.frames := by
  obtain ⟨rfl, hframes, -⟩ := Memory.shareFrames_eq_ok h
  refine ⟨fun start ↦ ?_, fun id ↦ by rw [hframes, FrameStore.frame_allocate]⟩
  rw [Memory.prepareFrames, if_neg (Nat.lt_irrefl _), hframes]
  rfl

end Backing

namespace Memory

variable {m m₀ m' : Memory} {a : Address} {length : Nat} {r : PageRange} {p : Permissions}
  {b : Backing} {region : Region}

/-! ### New pages -/

/-- Memory before and after a range of pages was renewed: they have frames that were never given
out, which are zeros, and all other entries and all frames are what they were. -/
structure Renewed (m : Memory) (r : PageRange) (attributes : PageAttributes) (m' : Memory) :
    Prop where
  /-- The window stays. -/
  window : m'.space.window = m.space.window
  /-- Each page of the range is mapped to a frame of its own. -/
  inside (number : Nat) : r.contains number →
    m'.space.pages[number]? = some ⟨attributes, m.frames.next + (number - r.first)⟩
  /-- These frames are zeros. -/
  zeroed (i : Nat) : i < r.count → m'.frames.frame (m.frames.next + i) = .zeroed
  /-- The other pages stay. -/
  outside (number : Nat) : ¬r.contains number → m'.space.pages[number]? = m.space.pages[number]?
  /-- All frames stay. -/
  frames (id : FrameId) : m'.frames.frame id = m.frames.frame id

theorem exists_insertPages (hb : b.Unused r.count m.frames m₀.frames) :
    ∃ region m', m₀.insertPages r p b = .ok (region, m') ∧ region.first = r.first := by
  rw [insertPages, hb.prepare]
  exact ⟨_, _, rfl, rfl⟩

/-- Pages that are entered with unused frames renew a range, whatever the range held. -/
theorem renewed_insertPages (hm : m.WellFormed) (hb : b.Unused r.count m.frames m₀.frames)
    (hwindow : m₀.space.window = m.space.window)
    (houtside : ∀ number, ¬r.contains number → m₀.space.pages[number]? = m.space.pages[number]?)
    (h : m₀.insertPages r p b = .ok (region, m')) : m.Renewed r ⟨p, b.kind, b.name⟩ m' := by
  obtain ⟨first, hprepare, -, hwindow', hpages⟩ := insertPages_eq_ok h
  rw [hb.prepare, Except.ok.injEq] at hprepare
  obtain rfl : m.frames.next = first := congrArg Prod.fst hprepare
  have hframes : (m.frames.allocate r.count).2 = m'.frames := congrArg Prod.snd hprepare
  have hframe (id : FrameId) : m'.frames.frame id = m.frames.frame id := by
    rw [← hframes, FrameStore.frame_allocate]
  refine ⟨hwindow'.trans hwindow, fun number hin ↦ ?_, fun i _ ↦ ?_, fun number hout ↦ ?_, hframe⟩
  · rw [hpages, if_pos hin]
  · rw [hframe]
    exact hm.fresh _ (Nat.le_add_right _ _)
  · rw [hpages, if_neg hout]
    exact houtside number hout

/-- Free pages can be entered. -/
theorem map_of_vacant (hspans : a.Spans length) (hvacant : m.Vacant (.ofBytes a length)) :
    m.map a length p b = m.insertPages (.ofBytes a length) p b := by
  rw [map, PageRange.of?_ofBytes hspans]
  simp only [bind, Except.bind, firstMapped?_eq_none_iff.mpr hvacant]

/-- A mapping enters free pages. -/
theorem vacant_of_map (h : m.map a length p b = .ok (region, m')) :
    a.Spans length ∧ m.Vacant (.ofBytes a length) ∧
      m.insertPages (.ofBytes a length) p b = .ok (region, m') := by
  obtain ⟨r, hrange, hfirst, hinsert⟩ := map_eq_ok h
  obtain ⟨hspans, rfl⟩ := PageRange.of?_eq_ok_iff.mp hrange
  exact ⟨hspans, firstMapped?_eq_none_iff.mp hfirst, hinsert⟩

theorem exists_map_eq_error (h : ¬m.Vacant (.ofBytes a length)) :
    ∃ e, m.map a length p b = .error e := by
  cases hmap : m.map a length p b with
  | error e => exact ⟨e, rfl⟩
  | ok mapped => exact absurd (vacant_of_map hmap).2.1 h

/-! ### Places -/

/-- Pages that fit somewhere are entered at the lowest place. -/
theorem mapAnywhere_of_fits (hpos : 0 < length)
    (h : m.space.Fits (roundUpToPage length) a) :
    ∃ v, m.space.FirstFit (roundUpToPage length) v ∧
      m.mapAnywhere length p b = m.insertPages (.ofBytes v length) p b := by
  have hne : length ≠ 0 := Nat.ne_of_gt hpos
  have hround : length + (pageSize - 1) < addressLimit := by
    have hstop := (h.spans hpos).stop_lt
    simp only [roundUpToPage, pageSize, addressLimit] at hstop ⊢
    omega
  obtain ⟨hnone, hsome⟩ := m.space.firstFit?_spec (pages_pos hne)
  rw [roundUpToPage_eq] at hnone hsome
  cases hfit : m.space.firstFit? (roundUpToPage length / pageSize) with
  | none => exact absurd h (hnone.mp hfit a)
  | some found =>
    obtain ⟨hlimit, hfirst⟩ := hsome found hfit
    refine ⟨_, hfirst, ?_⟩
    rw [mapAnywhere_of_firstFit? hne hround hfit, PageRange.ofBytes, Address.page_ofPage hlimit]

/-- Pages that fit nowhere are refused. -/
theorem exists_mapAnywhere_eq_error (h : ∀ v, ¬m.space.Fits (roundUpToPage length) v) :
    ∃ e, m.mapAnywhere length p b = .error e := by
  by_cases hvalid : length ≠ 0 ∧ length + (pageSize - 1) < addressLimit
  · exact ⟨_, mapAnywhere_eq_error_iff.mpr (.noPlace hvalid.1 hvalid.2 (not_exists.mpr h))⟩
  · exact ⟨_, mapAnywhere_eq_error_iff.mpr (.noPages (by omega))⟩

/-! ### Pages removed, and given permissions -/

/-- Memory before and after the mapped pages of a range were removed. -/
structure Removed (m : Memory) (r : PageRange) (m' : Memory) : Prop where
  /-- The window stays. -/
  window : m'.space.window = m.space.window
  /-- The pages of the range are gone, and no other. -/
  pages (number : Nat) :
    m'.space.pages[number]? = if r.contains number then none else m.space.pages[number]?
  /-- The frames stay. -/
  frames : m'.frames = m.frames

/-- Memory before and after the pages of a range were given permissions. -/
structure Protected (m : Memory) (r : PageRange) (p : Permissions) (m' : Memory) : Prop where
  /-- The window stays. -/
  window : m'.space.window = m.space.window
  /-- The pages of the range have other permissions, and nothing else is different. -/
  pages (number : Nat) : m'.space.pages[number]? = m.space.pages[number]?.map fun page ↦
    if r.contains number then { page with attributes.permissions := p } else page
  /-- The frames stay. -/
  frames : m'.frames = m.frames

theorem removed_removePages (m : Memory) (r : PageRange) :
    m.Removed r { m with space := m.space.removePages r } :=
  ⟨rfl, m.space.getElem?_removePages r, rfl⟩

theorem protected_setPermissions (m : Memory) (r : PageRange) (p : Permissions) :
    m.Protected r p { m with space := m.space.setPermissions r p } :=
  ⟨rfl, m.space.getElem?_setPermissions r p, rfl⟩

/-- Removing is refused only for bytes that span no pages. -/
theorem exists_discard (m : Memory) (hspans : a.Spans length) :
    ∃ count m', m.discard a length = .ok (count, m') ∧ m.Removed (.ofBytes a length) m' := by
  rw [discard, PageRange.of?_ofBytes hspans]
  exact ⟨_, _, rfl, m.removed_removePages _⟩

theorem exists_discard_eq_error (h : ¬a.Spans length) : ∃ e, m.discard a length = .error e := by
  obtain ⟨e, he⟩ := PageRange.exists_of?_eq_error h
  exact ⟨e, by rw [discard, he]; rfl⟩

/-- There is no hole just in case every page is mapped. -/
theorem firstHole?_eq_none_iff {s : AddressSpace} {first count : Nat} :
    s.firstHole? first count = none ↔
      ∀ number, first ≤ number → number < first + count → s.pages[number]? ≠ none := by
  induction count generalizing first with
  | zero =>
    refine ⟨fun _ number hlow hhigh ↦ absurd hhigh (Nat.not_lt_of_le hlow), fun _ ↦ rfl⟩
  | succ count ih =>
    rw [AddressSpace.firstHole?]
    by_cases hmapped : s.pages.contains first = true
    · rw [if_pos hmapped, ih]
      rw [Std.ExtTreeMap.contains_eq_isSome_getElem?] at hmapped
      constructor
      · intro h number hlow hhigh
        rcases Nat.eq_or_lt_of_le hlow with rfl | hlt
        · exact Option.isSome_iff_ne_none.mp hmapped
        · exact h number hlt (by omega)
      · intro h number hlow hhigh
        exact h number (by omega) (by omega)
    · rw [if_neg hmapped]
      rw [Std.ExtTreeMap.contains_eq_isSome_getElem?, Option.not_isSome_iff_eq_none] at hmapped
      exact ⟨nofun, fun h ↦ absurd hmapped (h first (Nat.le_refl _) (by omega))⟩

/-- Every page of a range is mapped. -/
def Throughout (m : Memory) (r : PageRange) : Prop :=
  ∀ number, r.contains number → m.space.pages[number]? ≠ none

theorem requireMapped_eq_ok_iff (start : Address) :
    m.requireMapped start r = .ok () ↔ m.Throughout r := by
  have hhole : m.space.firstHole? r.first r.count = none ↔ m.Throughout r := by
    simp only [firstHole?_eq_none_iff, Throughout, PageRange.contains_iff, and_imp]
  rw [← hhole, requireMapped]
  cases m.space.firstHole? r.first r.count with
  | none => simp
  | some hole => simp

/-- Giving permissions is refused if a page is missing, and then changes none. -/
theorem protect_eq_ok_iff :
    m.protect a length p = .ok m' ↔ a.Spans length ∧ m.Throughout (.ofBytes a length) ∧
      m' = { m with space := m.space.setPermissions (.ofBytes a length) p } := by
  rw [protect]
  by_cases hspans : a.Spans length
  · rw [PageRange.of?_ofBytes hspans, ← requireMapped_eq_ok_iff a]
    simp only [bind, Except.bind, hspans, true_and]
    cases m.requireMapped a (.ofBytes a length) with
    | error e => simp
    | ok => simp [eq_comm]
  · obtain ⟨e, he⟩ := PageRange.exists_of?_eq_error hspans
    simp [he, hspans, bind, Except.bind]

end Memory

end LongMode
