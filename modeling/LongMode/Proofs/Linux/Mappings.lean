import LongMode.Proofs.Linux.Histories
import LongMode.Proofs.Memory.Changes

/-!
Calls to map, unmap and protect pages. What each of them comes to is said by a relation between the
caller before it and its result: `Caller.MapsPages`, `Caller.UnmapsPages` and
`Caller.ProtectsPages`. None of them stops half-way (`calls_on_pages`): of the steps of a mapping,
the frames are found first, which changes no page, and once a range has been removed nothing keeps
new pages from it (`Call.places_replace`).
-/

set_option autoImplicit false
set_option relaxedAutoImplicit false

namespace LongMode.Linux

/-! ### What calls come to -/

/-- A length and flags that can be mapped: there is a byte, its pages can be counted, no file is
behind them, and they are either shared or private. -/
structure Mappable (length flags : Word) : Prop where
  /-- There is a byte. -/
  pos : length ≠ 0
  /-- Rounding up to whole pages stays below 2^64. -/
  round : length.toNat + (pageSize - 1) < addressLimit
  /-- No file is behind the pages. -/
  fileless : flags.getLsbD 5 = true
  /-- The pages are either shared or private. -/
  sharing : flags.getLsbD 0 ≠ flags.getLsbD 1

/-- What new pages are like. -/
def mappedAttributes (protection flags : Word) : PageAttributes :=
  ⟨.ofProtection protection.toNat, if flags.getLsbD 0 then .shared else .anonymous, none⟩

/-- The pages of some bytes from an address on are free. -/
structure FreeAt (m : Memory) (length : Nat) (a : Address) : Prop where
  /-- The bytes span pages. -/
  spans : a.Spans length
  /-- None of the pages is mapped. -/
  vacant : m.Vacant (.ofBytes a length)

/-- Where a mapping goes that is asked for at an address. -/
inductive Placed (m : Memory) (a : Address) (length : Nat) : Call.Placement → Address → Prop
  /-- At the address, which has to be free. -/
  | vacant (h : FreeAt m length a) : Placed m a length .vacant a
  /-- At the address, whatever is there. -/
  | replace (h : a.Spans length) : Placed m a length .replace a
  /-- At the address, if it is free and not zero. -/
  | honoured (hne : a ≠ 0) (h : FreeAt m length a) : Placed m a length .hint a
  /-- Otherwise at the lowest place in the window that fits. -/
  | lowest (h : ¬(a ≠ 0 ∧ FreeAt m length a)) (v : Address)
    (hv : m.space.FirstFit (roundUpToPage length) v) : Placed m a length .hint v

/-- What a call to map pages comes to. -/
inductive Caller.MapsPages (c : Caller) (a : Address) (length protection flags : Word) :
    Except Errno Word → Caller → Prop
  /-- New pages of zeros are at the place for them, and the answer is where they begin. Only a
  mapping that is to replace what is there can go where something is. -/
  | placed (hargs : Mappable length flags) (v : Address)
    (hplace : Placed c.memory a length.toNat (.ofFlags flags) v)
    (hfree : Call.Placement.ofFlags flags ≠ .replace → FreeAt c.memory length.toNat v)
    (memory : Memory)
    (hmemory : c.memory.Renewed (.ofBytes v length.toNat) (mappedAttributes protection flags)
      memory) :
    MapsPages c a length protection flags (.ok v) { c with memory }
  /-- The arguments are not in order, or there is no place: page table and frames stay. -/
  | refused (h : ¬(Mappable length flags ∧ ∃ v, Placed c.memory a length.toNat (.ofFlags flags) v))
    (e : Errno) (memory : Memory) (hspace : memory.space = c.memory.space)
    (hframes : ∀ id, memory.frames.frame id = c.memory.frames.frame id) :
    MapsPages c a length protection flags (.error e) { c with memory }

/-- A mapping may be refused before anything is done. -/
theorem Caller.mapsPages_error {c : Caller} {a : Address} {length protection flags : Word}
    (h : ¬(Mappable length flags ∧ ∃ v, Placed c.memory a length.toNat (.ofFlags flags) v))
    (e : Errno) : c.MapsPages a length protection flags (.error e) c :=
  .refused h e c.memory rfl fun _ ↦ rfl

/-- What a call to unmap pages comes to. -/
inductive Caller.UnmapsPages (c : Caller) (a : Address) (length : Word) :
    Except Errno Word → Caller → Prop
  /-- The mapped pages of the range are removed. -/
  | removed (h : a.Spans length.toNat) (memory : Memory)
    (hmemory : c.memory.Removed (.ofBytes a length.toNat) memory) :
    UnmapsPages c a length (.ok 0) { c with memory }
  /-- The bytes span no pages: nothing changes. -/
  | refused (h : ¬a.Spans length.toNat) (e : Errno) : UnmapsPages c a length (.error e) c

/-- What a call to protect pages comes to. -/
inductive Caller.ProtectsPages (c : Caller) (a : Address) (length protection : Word) :
    Except Errno Word → Caller → Prop
  /-- There is nothing to protect. -/
  | nothing (haligned : a.isPageAligned = true) (h : length = 0) :
    ProtectsPages c a length protection (.ok 0) c
  /-- All pages of the range are mapped, and have new permissions. -/
  | changed (h : a.Spans length.toNat) (hmapped : c.memory.Throughout (.ofBytes a length.toNat))
    (memory : Memory)
    (hmemory : c.memory.Protected (.ofBytes a length.toNat) (.ofProtection protection.toNat)
      memory) :
    ProtectsPages c a length protection (.ok 0) { c with memory }
  /-- The bytes span no pages, or one is not mapped: nothing changes. -/
  | refused (h : ¬(a.Spans length.toNat ∧ c.memory.Throughout (.ofBytes a length.toNat)))
    (haligned : ¬(a.isPageAligned = true ∧ length = 0)) (e : Errno) :
    ProtectsPages c a length protection (.error e) c

namespace Call

variable {c : Caller} {a : Address} {length protection flags file : Word}

/-! ### Changing the page table -/

theorem run_changePages_of_ok {f : Memory → Except MapError Memory} {memory : Memory}
    (h : f c.memory = .ok memory) :
    (changePages f).run.run c = (.ok (), { c with memory }) := by
  rw [changePages, (ends_get c).run_bind, h]
  rfl

theorem run_changePages_of_error {f : Memory → Except MapError Memory} {e : MapError}
    (h : f c.memory = .error e) : (changePages f).run.run c = (.error (.ofMapError e), c) := by
  rw [changePages, (ends_get c).run_bind, h]
  rfl

theorem run_mapWith_of_ok {f : Memory → Except MapError (Region × Memory)} {region : Region}
    {memory : Memory} (h : f c.memory = .ok (region, memory)) :
    (mapWith f).run.run c = (.ok (Address.ofPage region.first), { c with memory }) := by
  rw [mapWith, (ends_get c).run_bind, h]
  rfl

theorem run_mapWith_of_error {f : Memory → Except MapError (Region × Memory)} {e : MapError}
    (h : f c.memory = .error e) : (mapWith f).run.run c = (.error (.ofMapError e), c) := by
  rw [mapWith, (ends_get c).run_bind, h]
  rfl

/-- The mapped pages of a range are removed. -/
theorem ends_discard (c : Caller) {length : Nat} (h : a.Spans length) :
    ∃ memory, Ends (changePages fun m ↦ (m.discard a length).map (·.2)) c () { c with memory } ∧
      c.memory.Removed (.ofBytes a length) memory := by
  obtain ⟨count, memory, hdiscard, hremoved⟩ := c.memory.exists_discard h
  exact ⟨memory, run_changePages_of_ok (by rw [hdiscard]; rfl), hremoved⟩

theorem run_discard_of_not_spans (c : Caller) {length : Nat} (h : ¬a.Spans length) :
    ∃ e, (changePages fun m ↦ (m.discard a length).map (·.2)).run.run c = (.error e, c) := by
  obtain ⟨e, he⟩ := Memory.exists_discard_eq_error (m := c.memory) h
  exact ⟨_, run_changePages_of_error (by rw [he]; rfl)⟩

/-! ### Unmapping and protecting -/

theorem run_unmapPages (c : Caller) (a : Address) (length : Word) :
    ∃ result c', (unmapPages a length).run.run c = (result, c') ∧
      c.UnmapsPages a length result c' := by
  rw [unmapPages, run_guard]
  split
  next hargs =>
    refine ⟨_, c, rfl, .refused (fun hspans ↦ ?_) _⟩
    rcases hargs with haligned | rfl
    · rw [hspans.aligned] at haligned
      exact absurd haligned (by decide)
    · exact absurd hspans.pos (by decide)
  next =>
    by_cases hspans : a.Spans length.toNat
    · obtain ⟨memory, hends, hremoved⟩ := ends_discard c hspans
      exact ⟨.ok 0, _, Ends.run_bind hends, .removed hspans memory hremoved⟩
    · obtain ⟨e, he⟩ := run_discard_of_not_spans c hspans
      exact ⟨_, c, run_bind_of_error he, .refused hspans _⟩

theorem run_protectPages (c : Caller) (a : Address) (length protection : Word) :
    ∃ result c', (protectPages a length protection).run.run c = (result, c') ∧
      c.ProtectsPages a length protection result c' := by
  rw [protectPages, run_guard]
  split
  next hunaligned =>
    have haligned : ¬a.isPageAligned = true := by simpa using hunaligned
    exact ⟨_, c, rfl, .refused (fun h ↦ haligned h.1.aligned) (fun h ↦ haligned h.1) _⟩
  next haligned =>
    replace haligned : a.isPageAligned = true := by simpa using haligned
    by_cases hlength : length = 0
    · rw [if_neg (not_not_intro hlength)]
      exact ⟨_, c, rfl, .nothing haligned hlength⟩
    · rw [if_pos hlength]
      by_cases hspans : a.Spans length.toNat ∧ c.memory.Throughout (.ofBytes a length.toNat)
      · have hprotect := Memory.protect_eq_ok_iff (p := .ofProtection protection.toNat).mpr
          ⟨hspans.1, hspans.2, rfl⟩
        refine ⟨.ok 0, _, Ends.run_bind (run_changePages_of_ok hprotect), ?_⟩
        exact .changed hspans.1 hspans.2 _ (c.memory.protected_setPermissions _ _)
      · cases hprotect : c.memory.protect a length.toNat (.ofProtection protection.toNat) with
        | ok memory =>
          have hok := Memory.protect_eq_ok_iff.mp hprotect
          exact absurd ⟨hok.1, hok.2.1⟩ hspans
        | error e =>
          refine ⟨_, c, run_bind_of_error (run_changePages_of_error hprotect), ?_⟩
          exact .refused hspans (fun h ↦ hlength h.2) _

/-! ### Mapping -/

/-- The kind of new pages. -/
def Sharing.kind : Sharing → BackingKind
  | .isPrivate => .anonymous
  | .isShared => .shared

theorem ofFlags?_eq_some {sharing : Sharing} (h : Sharing.ofFlags? flags = some sharing) :
    flags.getLsbD 0 ≠ flags.getLsbD 1 ∧
      sharing.kind = if flags.getLsbD 0 then .shared else .anonymous := by
  rw [Sharing.ofFlags?] at h
  split at h
  next hshared hprivate =>
    cases h
    rw [hshared, hprivate]
    exact ⟨by decide, rfl⟩
  next hshared hprivate =>
    cases h
    rw [hshared, hprivate]
    exact ⟨by decide, rfl⟩
  next => cases h

theorem exists_ofFlags?_eq_some (h : flags.getLsbD 0 ≠ flags.getLsbD 1) :
    ∃ sharing, Sharing.ofFlags? flags = some sharing := by
  rw [Sharing.ofFlags?]
  cases hshared : flags.getLsbD 0 with
  | false =>
    cases hprivate : flags.getLsbD 1 with
    | false => exact absurd (hshared.trans hprivate.symm) h
    | true => exact ⟨_, rfl⟩
  | true =>
    cases hprivate : flags.getLsbD 1 with
    | false => exact ⟨_, rfl⟩
    | true => exact absurd (hshared.trans hprivate.symm) h

/-- New pages have frames that nothing uses; that they were set apart changes no page. -/
theorem ends_freshBacking (c : Caller) {length : Nat} (hpos : 0 < length)
    (hround : length + (pageSize - 1) < addressLimit) (sharing : Sharing) :
    ∃ b memory, Ends (freshBacking length sharing) c b { c with memory } ∧
      b.Unused (roundUpToPage length / pageSize) c.memory.frames memory.frames ∧
      memory.space = c.memory.space ∧ b.kind = sharing.kind ∧ b.name = none := by
  cases sharing with
  | isPrivate => exact ⟨_, c.memory, rfl, Backing.unused_anonymous _ _, rfl, rfl, rfl⟩
  | isShared =>
    obtain ⟨run, memory, hshare⟩ :
        ∃ run memory, c.memory.shareFrames length = .ok (run, memory) := by
      rw [Memory.shareFrames, if_neg (mt Memory.invalidLength_iff.mp
        (not_not_intro ⟨Nat.ne_of_gt hpos, hround⟩))]
      exact ⟨_, _, rfl⟩
    refine ⟨.shared run, memory, ?_, Backing.unused_of_shareFrames hshare,
      (Memory.shareFrames_eq_ok hshare).2.2, rfl, rfl⟩
    rw [Ends, freshBacking, (ends_get c).run_bind, hshare]
    rfl

/-- Pages are entered at a place for them, with unused frames. -/
theorem ends_mapWith_of_insertPages (hm : c.memory.WellFormed) {memory₀ : Memory} {b : Backing}
    {v : Address} {length : Nat} {p : Permissions}
    (hunused : b.Unused (roundUpToPage length / pageSize) c.memory.frames memory₀.frames)
    (hwindow : memory₀.space.window = c.memory.space.window)
    (houtside : ∀ number, ¬(PageRange.ofBytes v length).contains number →
      memory₀.space.pages[number]? = c.memory.space.pages[number]?)
    (hv : v.isPageAligned = true) {f : Memory → Except MapError (Region × Memory)}
    (hf : f memory₀ = memory₀.insertPages (.ofBytes v length) p b) :
    ∃ memory, Ends (mapWith f) { c with memory := memory₀ } v { c with memory } ∧
      c.memory.Renewed (.ofBytes v length) ⟨p, b.kind, b.name⟩ memory := by
  obtain ⟨region, memory, hinsert, hregion⟩ :=
    Memory.exists_insertPages (r := .ofBytes v length) (p := p) hunused
  refine ⟨memory, ?_, Memory.renewed_insertPages hm hunused hwindow houtside hinsert⟩
  have hbegin : Address.ofPage v.page = v :=
    Address.ofPage_of_toNat (Address.toNat_of_isPageAligned hv)
  rw [Ends, run_mapWith_of_ok (hf.trans hinsert), hregion, PageRange.first_ofBytes, hbegin]

/-- What placing pages comes to, begun with memory `memory₀`: they are placed where `Placed` says,
or there is no place and nothing changes. -/
inductive Places (c : Caller) (memory₀ : Memory) (a : Address) (length : Nat)
    (attributes : PageAttributes) (placement : Placement) : Except Errno Word × Caller → Prop
  | placed (v : Address) (hplace : Placed c.memory a length placement v)
    (hfree : placement ≠ .replace → FreeAt c.memory length v) (memory : Memory)
    (hmemory : c.memory.Renewed (.ofBytes v length) attributes memory) :
    Places c memory₀ a length attributes placement (.ok v, { c with memory })
  | refused (h : ¬∃ v, Placed c.memory a length placement v) (e : Errno) :
    Places c memory₀ a length attributes placement (.error e, { c with memory := memory₀ })

section Place

variable {memory₀ : Memory} {b : Backing} {length : Nat} {p : Permissions}

theorem isFree_iff_freeAt (hspace : memory₀.space = c.memory.space) :
    memory₀.isFree a (roundUpToPage length) = true ↔ FreeAt c.memory length a := by
  rw [Memory.isFree_iff, Memory.vacant_congr hspace, Address.spans_roundUpToPage,
    PageRange.ofBytes_roundUpToPage]
  exact ⟨fun h ↦ ⟨h.1, h.2⟩, fun h ↦ ⟨h.spans, h.vacant⟩⟩

variable (hm : c.memory.WellFormed)
  (hunused : b.Unused (roundUpToPage length / pageSize) c.memory.frames memory₀.frames)
  (hspace : memory₀.space = c.memory.space)

include hm hunused hspace

theorem ends_map_of_freeAt (h : FreeAt c.memory length a) :
    ∃ memory, Ends (mapWith fun m ↦ m.map a (roundUpToPage length) p b)
        { c with memory := memory₀ } a { c with memory } ∧
      c.memory.Renewed (.ofBytes a length) ⟨p, b.kind, b.name⟩ memory := by
  have hvacant : memory₀.Vacant (.ofBytes a (roundUpToPage length)) := by
    rw [PageRange.ofBytes_roundUpToPage, Memory.vacant_congr hspace]
    exact h.vacant
  refine ends_mapWith_of_insertPages hm hunused (by rw [hspace]) (fun _ _ ↦ by rw [hspace])
    h.spans.aligned ?_
  rw [Memory.map_of_vacant (Address.spans_roundUpToPage.mpr h.spans) hvacant,
    PageRange.ofBytes_roundUpToPage]

/-- A range that is removed first is free. -/
theorem places_replace : Places c memory₀ a length ⟨p, b.kind, b.name⟩ .replace
    ((do changePages fun m ↦ (m.discard a (roundUpToPage length)).map (·.2)
         mapWith fun m ↦ m.map a (roundUpToPage length) p b : Call Word).run.run
      { c with memory := memory₀ }) := by
  by_cases h : a.Spans (roundUpToPage length)
  · obtain ⟨memory₁, hends₁, hremoved⟩ := ends_discard { c with memory := memory₀ } h
    rw [PageRange.ofBytes_roundUpToPage] at hremoved
    have hmap₁ : memory₁.map a (roundUpToPage length) p b =
        memory₁.insertPages (.ofBytes a length) p b := by
      rw [← PageRange.ofBytes_roundUpToPage]
      refine Memory.map_of_vacant h fun number hin ↦ ?_
      rw [PageRange.ofBytes_roundUpToPage] at hin
      rw [hremoved.pages, if_pos hin]
    have hunused₁ : b.Unused (roundUpToPage length / pageSize) c.memory.frames memory₁.frames := by
      rw [hremoved.frames]
      exact hunused
    obtain ⟨memory, hends, hrenewed⟩ := ends_mapWith_of_insertPages hm
      (f := fun m ↦ m.map a (roundUpToPage length) p b) hunused₁
      (hremoved.window.trans (congrArg AddressSpace.window hspace))
      (fun number hout ↦ by rw [hremoved.pages, if_neg hout, hspace]) h.aligned hmap₁
    rw [hends₁.run_bind, hends]
    exact .placed a (.replace (Address.spans_roundUpToPage.mp h)) (fun hne ↦ absurd rfl hne) memory
      hrenewed
  · obtain ⟨e, he⟩ := run_discard_of_not_spans { c with memory := memory₀ } h
    rw [run_bind_of_error he]
    refine .refused (fun ⟨v, hplace⟩ ↦ ?_) e
    cases hplace with
    | replace hspans => exact h (Address.spans_roundUpToPage.mpr hspans)

/-- Where the address that was asked for is not free, the lowest place is looked for. -/
theorem places_anywhere (hpos : 0 < length) (h : ¬(a ≠ 0 ∧ FreeAt c.memory length a)) :
    Places c memory₀ a length ⟨p, b.kind, b.name⟩ .hint
      ((mapWith fun m ↦ m.mapAnywhere (roundUpToPage length) p b).run.run
        { c with memory := memory₀ }) := by
  by_cases hfits : ∃ w, c.memory.space.Fits (roundUpToPage length) w
  · obtain ⟨w, hw⟩ := hfits
    obtain ⟨v, hv, hanywhere⟩ := Memory.mapAnywhere_of_fits (m := memory₀) (p := p) (b := b)
      (roundUpToPage_pos.mpr hpos) (by rwa [roundUpToPage_self, hspace])
    rw [roundUpToPage_self, hspace] at hv
    rw [PageRange.ofBytes_roundUpToPage] at hanywhere
    obtain ⟨memory, hends, hrenewed⟩ := ends_mapWith_of_insertPages hm
      (f := fun m ↦ m.mapAnywhere (roundUpToPage length) p b) hunused (by rw [hspace])
      (fun _ _ ↦ by rw [hspace]) hv.aligned hanywhere
    have hfree : FreeAt c.memory length v :=
      ⟨hv.toFits.spans hpos, fun _ hin ↦ hv.toFits.none_of_contains hin⟩
    rw [hends]
    exact .placed v (.lowest h v hv) (fun _ ↦ hfree) memory hrenewed
  · obtain ⟨e, he⟩ : ∃ e, memory₀.mapAnywhere (roundUpToPage length) p b = .error e := by
      refine Memory.exists_mapAnywhere_eq_error ?_
      rw [roundUpToPage_self, hspace]
      exact not_exists.mp hfits
    have hrun := run_mapWith_of_error (c := { c with memory := memory₀ })
      (f := fun m ↦ m.mapAnywhere (roundUpToPage length) p b) he
    rw [hrun]
    refine .refused (fun ⟨v, hplace⟩ ↦ ?_) _
    cases hplace with
    | honoured hne hfree => exact h ⟨hne, hfree⟩
    | lowest _ _ hv => exact hfits ⟨v, hv.toFits⟩

/-- Pages are placed where `Placed` says. -/
theorem run_placePages (hpos : 0 < length) (a : Address) (p : Permissions)
    (placement : Placement) : Places c memory₀ a length ⟨p, b.kind, b.name⟩ placement
      ((placePages a (roundUpToPage length) p b placement).run.run
        { c with memory := memory₀ }) := by
  have hfree : memory₀.isFree a (roundUpToPage length) = true ↔ FreeAt c.memory length a :=
    isFree_iff_freeAt hspace
  simp only [placePages, run_guard]
  split
  next hguard =>
    refine .refused (fun ⟨v, hplace⟩ ↦ ?_) .einval
    have haligned : ¬a.isPageAligned = true := by simpa using hguard.2
    cases hplace with
    | vacant h => exact haligned h.spans.aligned
    | replace h => exact haligned h.aligned
    | honoured => exact hguard.1 rfl
    | lowest => exact hguard.1 rfl
  next =>
    cases placement with
    | vacant =>
      rw [(ends_get _).run_bind]
      by_cases h : FreeAt c.memory length a
      · obtain ⟨memory, hends, hrenewed⟩ := ends_map_of_freeAt hm hunused hspace (p := p) h
        rw [if_pos (hfree.mpr h), hends]
        exact .placed a (.vacant h) (fun _ ↦ h) memory hrenewed
      · rw [if_neg (mt hfree.mp h)]
        refine .refused (fun ⟨v, hplace⟩ ↦ ?_) .eexist
        cases hplace with
        | vacant hplace => exact h hplace
    | replace => exact places_replace hm hunused hspace
    | hint =>
      rw [(ends_get _).run_bind]
      by_cases h : a ≠ 0 ∧ FreeAt c.memory length a
      · obtain ⟨memory, hends, hrenewed⟩ := ends_map_of_freeAt hm hunused hspace (p := p) h.2
        rw [if_pos ⟨h.1, h.2.spans.aligned, hfree.mpr h.2⟩, hends]
        exact .placed a (.honoured h.1 h.2) (fun _ ↦ h.2) memory hrenewed
      · rw [if_neg fun hfound ↦ h ⟨hfound.1, hfree.mp hfound.2.2⟩]
        exact places_anywhere hm hunused hspace hpos h

end Place

theorem run_mapPages (hm : c.memory.WellFormed) (a : Address)
    (length protection flags file : Word) :
    ∃ result c', (mapPages a length protection flags file).run.run c = (result, c') ∧
      c.MapsPages a length protection flags result c' := by
  unfold mapPages
  extract_lets rounded shared fileless sized
  rw [run_guard]
  split
  next hzero => exact ⟨_, c, rfl, Caller.mapsPages_error (fun h ↦ h.1.pos hzero) _⟩
  next hzero =>
  unfold sized
  rw [run_guard]
  split
  next hlong =>
    exact ⟨_, c, rfl, Caller.mapsPages_error (fun h ↦ Nat.not_le_of_lt h.1.round hlong) _⟩
  next hround =>
  unfold fileless
  rw [run_guard]
  split
  next hfile =>
    refine ⟨_, c, rfl, Caller.mapsPages_error (fun h ↦ ?_) _⟩
    rw [h.1.fileless] at hfile
    exact absurd hfile (by decide)
  next hfileless =>
  unfold shared
  split
  next sharing hsharing =>
    have hpos : 0 < length.toNat := Nat.pos_of_ne_zero fun h ↦ hzero (BitVec.eq_of_toNat_eq h)
    rw [Nat.not_le] at hround
    have hfits : 0 < rounded ∧ rounded + (pageSize - 1) < addressLimit := by
      simp only [rounded, roundUpToPage, pageSize, addressLimit] at hround ⊢
      omega
    obtain ⟨hdiffer, hkind⟩ := ofFlags?_eq_some hsharing
    obtain ⟨b, memory₀, hends, hunused, hspace, hbkind, hname⟩ :=
      ends_freshBacking c hfits.1 hfits.2 sharing
    have hargs : Mappable length flags := ⟨hzero, hround, by simpa using hfileless, hdiffer⟩
    rw [roundUpToPage_self] at hunused
    have hplaces := run_placePages hm hunused hspace hpos a (.ofProtection protection.toNat)
      (.ofFlags flags)
    rw [hends.run_bind]
    generalize (placePages a _ _ b _).run.run { c with memory := memory₀ } = out at hplaces ⊢
    cases hplaces with
    | placed v hplace hfree memory hmemory =>
      rw [hbkind, hkind, hname] at hmemory
      exact ⟨.ok v, _, rfl, .placed hargs v hplace hfree memory hmemory⟩
    | refused hnowhere e =>
      exact ⟨.error e, _, rfl, .refused (fun h ↦ hnowhere h.2) e memory₀ hspace hunused.frames⟩
  next hnone =>
    refine ⟨_, c, rfl, Caller.mapsPages_error (fun h ↦ ?_) _⟩
    obtain ⟨sharing, hsome⟩ := exists_ofFlags?_eq_some h.1.sharing
    exact hnone sharing hsome

end Call

/-- Calls to map, unmap and protect pages, over any memory that a history can lead to and with any
arguments. One that fails leaves the page table and the bytes of all frames as they were. A mapping
succeeds just if its arguments are in order and there is a place for it. The place is the address
that was asked for where that is a must, and may be taken from other pages only with the flag that
says so; it is also the address if this is free and not zero; otherwise it is the lowest place in
the window. The new pages are zero, have the permissions that were asked for, and are the only ones
that change. Unmapping removes the mapped pages of its range and no other. Protecting changes the
permissions of a range that is mapped throughout, and nothing else. -/
theorem calls_on_pages (windows : Nat → MapWindow) (history : List Action) (k : Nat)
    (kernel : Kernel) (thread : Thread) (r : SyscallRequest) :
    let c : Caller := ⟨kernel, ((World.start windows).after history).memory k, thread⟩
    (r.syscall? = some .mapPages → ∃ result c', c.call r = (.ofWord result, c') ∧
      c.MapsPages (r.argument 0) (r.argument 1) (r.argument 2) (r.argument 3) result c') ∧
    (r.syscall? = some .unmapPages → ∃ result c', c.call r = (.ofWord result, c') ∧
      c.UnmapsPages (r.argument 0) (r.argument 1) result c') ∧
    (r.syscall? = some .protectPages → ∃ result c', c.call r = (.ofWord result, c') ∧
      c.ProtectsPages (r.argument 0) (r.argument 1) (r.argument 2) result c') := by
  intro c
  have hm : c.memory.WellFormed := (World.wellFormed_after windows history).memory k
  refine ⟨fun hr ↦ ?_, fun hr ↦ ?_, fun hr ↦ ?_⟩
  · obtain ⟨result, c', hrun, hmaps⟩ := Call.run_mapPages hm (r.argument 0) (r.argument 1)
      (r.argument 2) (r.argument 3) (r.argument 4)
    exact ⟨result, c', Caller.call_of_run hr hrun rfl, hmaps⟩
  · obtain ⟨result, c', hrun, hunmaps⟩ := Call.run_unmapPages c (r.argument 0) (r.argument 1)
    exact ⟨result, c', Caller.call_of_run hr hrun rfl, hunmaps⟩
  · obtain ⟨result, c', hrun, hprotects⟩ := Call.run_protectPages c (r.argument 0) (r.argument 1)
      (r.argument 2)
    exact ⟨result, c', Caller.call_of_run hr hrun rfl, hprotects⟩

end LongMode.Linux
