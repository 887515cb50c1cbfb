import LongMode.Proofs.Memory.Ledger

/-!
Memory returns what was stored last.

* `read_eq_latest`: after any history of requests to any number of address spaces, a load that
  succeeds returns for each address the value of the cell that the address resolves to in the ledger
  of the history.
* `cell_eq_iff`: two addresses resolve to one cell if and only if their offsets agree and they lie
  in the same page, or in pages that map the same frame of a run made for sharing.

The proof is a simulation. `Ledger.Describes` relates a ledger to a world by a placement of sheets
in frames; every action keeps it (`Describes.note`), and so does a history (`Describes.after`).
-/

set_option autoImplicit false
set_option relaxedAutoImplicit false

namespace LongMode

/-- What a page and a sheet have in common: the frame, and whether other mappings may hold it. -/
def Page.origin (p : Page) : FrameId × Bool :=
  (p.frame, p.attributes.kind == .shared)

namespace Ledger

/-- A ledger describes a world: sheets in use are known and placed, each page table is the ledger's
with frames for sheets, and sheets not yet made are unknown. -/
structure Describes (l : Ledger) (w : World) (place : Sheet → FrameId) (known : Sheet → Prop) :
    Prop where
  placed : Placed known place w.frames l.value
  page (k number : Nat) : (w.spaces k).pages[number]?.map Page.origin =
    (l.table k number).map fun s ↦ (place s, s.isShared)
  mapped_known (k number : Nat) (s : Sheet) : l.table k number = some s → known s
  own_lt (birth index : Nat) : known (.own birth index) → birth < l.fills.length
  shared_lt (handle index : Nat) : known (.shared handle index) → handle < w.runs.length
  run_known (handle index : Nat) (run : SharedFrames) :
    w.runs[handle]? = some run → index < run.count →
      known (.shared handle index) ∧ place (.shared handle index) = run.first + index
  stored_known (store : Cell × UInt8) : store ∈ l.stores → known store.1.1

variable {l : Ledger} {w : World} {place : Sheet → FrameId} {known : Sheet → Prop}

theorem describes_start (windows : Nat → MapWindow) :
    Describes {} (World.start windows) (fun _ ↦ 0) fun _ ↦ False where
  placed := ⟨fun _ _ h ↦ h.elim, fun _ h ↦ h.elim, fun _ _ h ↦ h.elim⟩
  page k number := by simp [World.start]
  mapped_known k number s h := by simp at h
  own_lt _ _ h := h.elim
  shared_lt _ _ h := h.elim
  run_known handle index run h := by simp [World.start] at h
  stored_known store h := by simp at h

namespace Describes

/-! ### Cells -/

/-- An address resolves to the frame and offset in which its cell is placed. -/
theorem cell?_eq (h : l.Describes w place known) (k : Nat) :
    (w.spaces k).cell? = fun n ↦ (l.cell? k n).map (placeCell place) := by
  funext n
  have hframe := congrArg (Option.map Prod.fst) (h.page k (n / pageSize))
  rw [Option.map_map, Option.map_map] at hframe
  have hcell := congrArg (Option.map fun id ↦ (id, n % pageSize)) hframe
  rw [Option.map_map, Option.map_map] at hcell
  rw [AddressSpace.cell?, Ledger.cell?, Option.map_map]
  exact hcell

theorem known_of_cell? (h : l.Describes w place known) {k n : Nat} {c : Cell}
    (hc : l.cell? k n = some c) : known c.1 ∧ c.2 < pageSize := by
  rw [Ledger.cell?, Option.map_eq_some_iff] at hc
  obtain ⟨s, hs, rfl⟩ := hc
  exact ⟨h.mapped_known k _ s hs, Nat.mod_lt _ (by decide)⟩

/-- The byte at an address is the value of its cell. -/
theorem byte_eq_value (h : l.Describes w place known) (k : Nat) {a : Address} {c : Cell}
    (hc : l.cell? k a.toNat = some c) : (w.memory k).byte a = l.value c := by
  have hcell : (w.memory k).space.cell? a.toNat = some (placeCell place c) := by
    simp only [World.memory, h.cell?_eq k, hc, Option.map_some]
  obtain ⟨hknown, hoffset⟩ := h.known_of_cell? hc
  rw [Memory.byte_eq_contents _ hcell]
  exact h.placed.contents_eq c.1 c.2 hknown hoffset

/-- An address that resolves to a cell in one of the two models does so in the other. -/
theorem exists_cell (h : l.Describes w place known) {k : Nat} {a : Address} {p : Page}
    (hp : (w.memory k).page? a = some p) : ∃ c, l.cell? k a.toNat = some c := by
  have hpage := h.page k a.page
  have hentry : (w.spaces k).pages[a.page]? = some p := hp
  rw [hentry, Option.map_some, eq_comm, Option.map_eq_some_iff] at hpage
  obtain ⟨s, hs, _⟩ := hpage
  refine ⟨(s, a.toNat % pageSize), ?_⟩
  rw [Ledger.cell?, show a.toNat / pageSize = a.page from rfl, hs]
  rfl

/-- The word that the ledger computes for an operand is the one that memory holds. -/
theorem word_eq (h : l.Describes w place known) (k : Nat) {a : Address} {size : Nat}
    (hread : (w.memory k).check .read a size = .ok ()) :
    l.word k a size = (w.memory k).word a size := by
  rw [Ledger.word, Memory.word, Memory.bytes]
  congr 2
  refine List.map_congr_left fun i hi ↦ ?_
  obtain ⟨_, p, hp, _⟩ := Memory.page?_of_checkRange hread (List.mem_range.mp hi)
  obtain ⟨c, hc⟩ := h.exists_cell hp
  rw [hc, h.byte_eq_value k hc]
  rfl

/-! ### Stores -/

/-- Memory in which bytes were stored is described by the ledger in which they were entered. -/
theorem store (h : l.Describes w place known) {k : Nat} {a : Address} {bytes : List UInt8}
    {m : Memory} (hspace : m.space = w.spaces k) (hnext : m.frames.next = w.frames.next)
    (hcontents : m.frames.contents =
      FrameStore.assign w.frames.contents (spread (w.spaces k).cell? a.toNat bytes)) :
    (l.store k a bytes).Describes (w.replace k m) place known := by
  have hspaces : (w.replace k m).spaces = w.spaces := by
    rw [World.replace, hspace, Function.update_eq_self]
  have hstores (store : Cell × UInt8) (hstore : store ∈ spread (l.cell? k) a.toNat bytes) :
      known store.1.1 := by
    obtain ⟨n, hn⟩ := mem_spread hstore
    exact (h.known_of_cell? hn).1
  refine ⟨?_, fun k' number ↦ ?_, h.mapped_known, h.own_lt, h.shared_lt, h.run_known,
    fun store hstore ↦ ?_⟩
  · rw [value_store]
    refine h.placed.assign hstores hnext ?_
    rw [h.cell?_eq k, spread_map] at hcontents
    exact hcontents
  · rw [hspaces]
    exact h.page k' number
  · rcases List.mem_append.mp hstore with hnew | hold
    · exact hstores store (List.mem_reverse.mp hnew)
    · exact h.stored_known store hold

/-! ### Sheets for new pages -/

/-- The numbers of the sheets that the `birth`-th mapping makes. -/
def ownIndex (birth : Nat) : Sheet → Option Nat
  | .own b index => if b = birth then some index else none
  | .shared .. => none

/-- The numbers of the sheets in the `handle`-th run. -/
def sharedIndex (handle : Nat) : Sheet → Option Nat
  | .shared h index => if h = handle then some index else none
  | .own .. => none

theorem ownIndex_eq_some {birth i : Nat} {s : Sheet} :
    ownIndex birth s = some i ↔ s = .own birth i := by
  cases s with
  | own b index =>
    by_cases h : b = birth
    · simp [ownIndex, h]
    · simp [ownIndex, h]
  | shared handle index => simp [ownIndex]

theorem sharedIndex_eq_some {handle i : Nat} {s : Sheet} :
    sharedIndex handle s = some i ↔ s = .shared handle i := by
  cases s with
  | shared h' index =>
    by_cases h : h' = handle
    · simp [sharedIndex, h]
    · simp [sharedIndex, h]
  | own birth index => simp [sharedIndex]

/-- A private mapping makes sheets, which take new frames filled as the ledger says. -/
theorem allotOwn (h : l.Describes w place known) {source : Source} {frames : FrameStore}
    {count : Nat} (bytes : Nat → List UInt8) (hnext : frames.next = w.frames.next + count)
    (hframe : ∀ id, frames.frame id =
      if w.frames.next ≤ id ∧ id < w.frames.next + count then
        .ofBytes (bytes (id - w.frames.next))
      else w.frames.frame id)
    (hbytes : ∀ i offset, offset < pageSize →
      (bytes i).getD offset 0 = source.initial (i * pageSize + offset)) :
    ({ l with fills := l.fills ++ [source] } : Ledger).Describes { w with frames }
      (extendPlace (ownIndex l.fills.length) w.frames.next place)
      (extendKnown (ownIndex l.fills.length) count known) := by
  have hunknown (s : Sheet) (hs : known s) : ownIndex l.fills.length s = none := by
    cases s with
    | shared handle index => rfl
    | own birth index =>
      have hne : birth ≠ l.fills.length := Nat.ne_of_lt (h.own_lt birth index hs)
      simp [ownIndex, hne]
  have hinitial (s : Sheet) (offset : Nat) (hs : known s) :
      ({ l with fills := l.fills ++ [source] } : Ledger).initial (s, offset) =
        l.initial (s, offset) := by
    cases s with
    | shared handle index => rfl
    | own birth index =>
      simp only [Ledger.initial, List.getElem?_append_left (h.own_lt birth index hs)]
  refine ⟨?_, fun k number ↦ ?_, fun k number s hs ↦ .inl (h.mapped_known k number s hs),
    fun birth index hs ↦ ?_, fun handle index hs ↦ ?_, fun handle index run hrun hindex ↦ ?_,
    fun store hstore ↦ .inl (h.stored_known store hstore)⟩
  · refine h.placed.extend (fun s s' i hs hs' ↦ ?_) hunknown hnext (fun id hid ↦ ?_)
      (fun s offset hs ↦ ?_) (fun s i offset hs hi hoffset ↦ ?_)
    · rw [ownIndex_eq_some] at hs hs'
      rw [hs, hs']
    · rw [hframe, if_neg (by lia)]
    · simp only [Ledger.value, hinitial s offset hs]
    · rw [ownIndex_eq_some] at hs
      have hfresh : ∀ b, ((s, offset), b) ∉ l.stores := by
        intro b hmem
        have hlt := h.own_lt l.fills.length i (hs ▸ h.stored_known _ hmem)
        exact Nat.lt_irrefl _ hlt
      have hvalue := value_of_notMem { l with fills := l.fills ++ [source] } hfresh
      rw [hvalue, FrameStore.contents, hframe, if_pos (by lia), Nat.add_sub_cancel_left,
        Frame.get_ofBytes _ hoffset, hbytes i offset hoffset, hs]
      simp [Ledger.initial]
  · rw [h.page k number]
    refine Option.map_congr fun s hs ↦ ?_
    rw [extendPlace_of_known (hunknown s (h.mapped_known k number s hs))]
  · rw [List.length_append, List.length_singleton]
    rcases hs with hs | ⟨i, _, hs⟩
    · exact Nat.lt_succ_of_lt (h.own_lt birth index hs)
    · rw [ownIndex_eq_some, Sheet.own.injEq] at hs
      rw [hs.1]
      exact Nat.lt_succ_self _
  · rcases hs with hs | ⟨i, _, hs⟩
    · exact h.shared_lt handle index hs
    · cases hs
  · obtain ⟨hknown, hplace⟩ := h.run_known handle index run hrun hindex
    exact ⟨.inl hknown, hplace⟩

/-- Mapping a run that was made for sharing makes no sheet. -/
theorem fillShared (h : l.Describes w place known) (handle : Nat) :
    ({ l with fills := l.fills ++ [.shared handle] } : Ledger).Describes w place known := by
  have hinitial (c : Cell) :
      ({ l with fills := l.fills ++ [.shared handle] } : Ledger).initial c = l.initial c := by
    obtain ⟨s, offset⟩ := c
    cases s with
    | shared handle index => rfl
    | own birth index =>
      simp only [Ledger.initial, List.getElem?_append, List.getElem?_singleton]
      by_cases hold : birth < l.fills.length
      · rw [if_pos hold]
      · rw [if_neg hold, List.getElem?_eq_none (Nat.le_of_not_lt hold)]
        by_cases hnew : birth - l.fills.length = 0
        · rw [if_pos hnew]
          rfl
        · rw [if_neg hnew]
  have hvalue : ({ l with fills := l.fills ++ [.shared handle] } : Ledger).value = l.value := by
    funext c
    simp only [Ledger.value, hinitial]
  refine ⟨?_, h.page, h.mapped_known, fun birth index hs ↦ ?_, h.shared_lt, h.run_known,
    h.stored_known⟩
  · rw [hvalue]
    exact h.placed
  · rw [List.length_append]
    exact Nat.lt_of_lt_of_le (h.own_lt birth index hs) (Nat.le_add_right _ _)

/-- A run made for sharing makes sheets, which take new frames of zeros. -/
theorem allotShared (h : l.Describes w place known) {frames : FrameStore} {count : Nat}
    (hnext : frames.next = w.frames.next + count)
    (hframe : ∀ id, frames.frame id = w.frames.frame id)
    (hfresh : ∀ id, w.frames.next ≤ id → w.frames.frame id = .zeroed) :
    l.Describes { w with frames, runs := w.runs ++ [⟨w.frames.next, count⟩] }
      (extendPlace (sharedIndex w.runs.length) w.frames.next place)
      (extendKnown (sharedIndex w.runs.length) count known) := by
  have hunknown (s : Sheet) (hs : known s) : sharedIndex w.runs.length s = none := by
    cases s with
    | own birth index => rfl
    | shared handle index =>
      have hne : handle ≠ w.runs.length := Nat.ne_of_lt (h.shared_lt handle index hs)
      simp [sharedIndex, hne]
  refine ⟨?_, fun k number ↦ ?_, fun k number s hs ↦ .inl (h.mapped_known k number s hs),
    fun birth index hs ↦ ?_, fun handle index hs ↦ ?_, fun handle index run hrun hindex ↦ ?_,
    fun store hstore ↦ .inl (h.stored_known store hstore)⟩
  · refine h.placed.extend (fun s s' i hs hs' ↦ ?_) hunknown hnext (fun id _ ↦ hframe id)
      (fun _ _ _ ↦ rfl) (fun s i offset hs hi hoffset ↦ ?_)
    · rw [sharedIndex_eq_some] at hs hs'
      rw [hs, hs']
    · rw [sharedIndex_eq_some] at hs
      have hnone : ∀ b, ((s, offset), b) ∉ l.stores := by
        intro b hmem
        have hlt := h.shared_lt w.runs.length i (hs ▸ h.stored_known _ hmem)
        exact Nat.lt_irrefl _ hlt
      rw [value_of_notMem _ hnone, FrameStore.contents, hframe,
        hfresh _ (Nat.le_add_right _ _), Frame.get_zeroed, hs]
      rfl
  · rw [h.page k number]
    refine Option.map_congr fun s hs ↦ ?_
    rw [extendPlace_of_known (hunknown s (h.mapped_known k number s hs))]
  · rcases hs with hs | ⟨i, _, hs⟩
    · exact h.own_lt birth index hs
    · cases hs
  · rw [List.length_append, List.length_singleton]
    rcases hs with hs | ⟨i, _, hs⟩
    · exact Nat.lt_succ_of_lt (h.shared_lt handle index hs)
    · rw [sharedIndex_eq_some, Sheet.shared.injEq] at hs
      rw [hs.1]
      exact Nat.lt_succ_self _
  · rw [List.getElem?_append] at hrun
    by_cases hold : handle < w.runs.length
    · rw [if_pos hold] at hrun
      obtain ⟨hknown, hplace⟩ := h.run_known handle index run hrun hindex
      refine ⟨.inl hknown, ?_⟩
      rw [extendPlace_of_known (hunknown _ hknown), hplace]
    · rw [if_neg hold, List.getElem?_singleton] at hrun
      by_cases hnew : handle - w.runs.length = 0
      · rw [if_pos hnew, Option.some.injEq] at hrun
        have hhandle : handle = w.runs.length := by lia
        have hnumber : sharedIndex w.runs.length (.shared handle index) = some index := by
          simp [sharedIndex, hhandle]
        subst hrun
        exact ⟨.inr ⟨index, hindex, hnumber⟩, extendPlace_of_index hnumber⟩
      · rw [if_neg hnew] at hrun
        cases hrun

/-! ### Changes of a page table -/

/-- A page table that is replaced along with the ledger's. -/
theorem retable (h : l.Describes w place known) {k : Nat} {m : Memory} {sheets : Nat → Option Sheet}
    (hframes : m.frames = w.frames)
    (hpage : ∀ number, m.space.pages[number]?.map Page.origin =
      (sheets number).map fun s ↦ (place s, s.isShared))
    (hknown : ∀ number s, sheets number = some s → known s) :
    ({ l with table := Function.update l.table k sheets } : Ledger).Describes (w.replace k m)
      place known := by
  refine ⟨?_, fun k' number ↦ ?_, fun k' number s hs ↦ ?_, h.own_lt, h.shared_lt, h.run_known,
    h.stored_known⟩
  · rw [World.replace, hframes]
    exact h.placed
  · by_cases hk : k' = k
    · subst hk
      simp only [World.replace, Function.update_self]
      exact hpage number
    · simp only [World.replace, Function.update_of_ne hk]
      exact h.page k' number
  · by_cases hk : k' = k
    · subst hk
      simp only [Function.update_self] at hs
      exact hknown number s hs
    · simp only [Function.update_of_ne hk] at hs
      exact h.mapped_known k' number s hs

/-- New pages with the sheets that are placed in their frames. -/
theorem mapped (h : l.Describes w place known) {k length : Nat} {m : Memory} {r : PageRange}
    {attributes : PageAttributes} {first : FrameId} (sheet : Nat → Sheet)
    (hframes : m.frames = w.frames)
    (hpages : ∀ number, m.space.pages[number]? =
      if r.contains number then some ⟨attributes, first + (number - r.first)⟩
      else (w.spaces k).pages[number]?)
    (hmeets : ∀ number, r.contains number = true ↔ meets r.first length number)
    (hsheet : ∀ i, i < r.count → known (sheet i) ∧ place (sheet i) = first + i ∧
      (sheet i).isShared = (attributes.kind == .shared)) :
    ({ l with table := Function.update l.table k fun number ↦
        if meets r.first length number then some (sheet (number - r.first))
        else l.table k number } : Ledger).Describes (w.replace k m) place known := by
  refine h.retable hframes (fun number ↦ ?_) (fun number s hs ↦ ?_)
  · rw [hpages]
    by_cases hin : r.contains number = true
    · have hrange := (PageRange.contains_iff r number).mp hin
      obtain ⟨_, hplace, hshared⟩ := hsheet (number - r.first) (by lia)
      rw [if_pos hin, if_pos ((hmeets number).mp hin), Option.map_some, Option.map_some, hplace,
        hshared]
      rfl
    · rw [if_neg hin, if_neg (fun hmeet ↦ hin ((hmeets number).mpr hmeet))]
      exact h.page k number
  · by_cases hin : r.contains number = true
    · have hrange := (PageRange.contains_iff r number).mp hin
      rw [if_pos ((hmeets number).mp hin), Option.some.injEq] at hs
      rw [← hs]
      exact (hsheet (number - r.first) (by lia)).1
    · rw [if_neg (fun hmeet ↦ hin ((hmeets number).mpr hmeet))] at hs
      exact h.mapped_known k number s hs

/-- A mapping is described by the ledger in which it was entered. -/
theorem enter (h : l.Describes w place known) (hw : w.WellFormed) {k length : Nat} {m : Memory}
    {r : PageRange} {p : Permissions} {source : Source} {b : Backing} {region : Region}
    (hsource : source.backing? w.runs = some b)
    (hinsert : (w.memory k).insertPages r p b = .ok (region, m))
    (hmeets : ∀ number, r.contains number = true ↔ meets r.first length number) :
    ∃ place' known', (l.enter k r.first length source).Describes (w.replace k m) place' known' := by
  obtain ⟨first, hprepare, _, _, hpages⟩ := Memory.insertPages_eq_ok hinsert
  by_cases hprivate : b.isPrivate = true
  · obtain ⟨rfl, hnext, hframe⟩ := Memory.prepareFrames_of_isPrivate hprivate hprepare hw.fresh
    have hbytes (i offset : Nat) (hoffset : offset < pageSize) :
        (b.pageBytes i).getD offset 0 = source.initial (i * pageSize + offset) := by
      cases source with
      | anonymous =>
        cases hsource
        simp [Backing.pageBytes, Source.initial]
      | file name data start =>
        cases hsource
        simp only [Backing.pageBytes, Source.initial, List.getD_eq_getElem?_getD,
          List.getElem?_take, hoffset, if_true, List.getElem?_drop, Nat.add_assoc]
      | shared handle =>
        simp only [Source.backing?, Option.map_eq_some_iff] at hsource
        obtain ⟨run, _, rfl⟩ := hsource
        cases hprivate
    have hallot := h.allotOwn (fun i ↦ b.pageBytes i) hnext hframe hbytes
    refine ⟨_, _, hallot.mapped (m := m) (source.sheet l.fills.length) rfl hpages hmeets
      fun i hi ↦ ?_⟩
    have hsheet : source.sheet l.fills.length i = .own l.fills.length i ∧
        (b.kind == .shared) = false := by
      cases source with
      | anonymous =>
        cases hsource
        exact ⟨rfl, rfl⟩
      | file name data start =>
        cases hsource
        exact ⟨rfl, rfl⟩
      | shared handle =>
        simp only [Source.backing?, Option.map_eq_some_iff] at hsource
        obtain ⟨run, _, rfl⟩ := hsource
        cases hprivate
    have hnumber := ownIndex_eq_some.mpr hsheet.1
    rw [hsheet.2]
    exact ⟨.inr ⟨i, hi, hnumber⟩, extendPlace_of_index hnumber, by rw [hsheet.1]; rfl⟩
  · cases b with
    | anonymous => exact absurd rfl hprivate
    | file name data offset => exact absurd rfl hprivate
    | shared run =>
      obtain ⟨hcount, rfl, hframes⟩ := Memory.prepareFrames_shared hprepare
      obtain ⟨handle, rfl, hrun⟩ := Source.mem_of_backing?_eq_shared hsource
      refine ⟨place, known, (h.fillShared handle).mapped (m := m) (.shared handle) hframes hpages
        hmeets fun i hi ↦ ?_⟩
      obtain ⟨hknown, hplace⟩ := h.run_known handle i run hrun (Nat.lt_of_lt_of_le hi hcount)
      exact ⟨hknown, hplace, rfl⟩

/-- The removal of pages is described by the ledger in which it was entered. -/
theorem remove (h : l.Describes w place known) {k : Nat} {start : Address} {length : Nat}
    {r : PageRange} (hrange : PageRange.of? start length = .ok r) :
    (l.remove k start.page length).Describes
      (w.replace k { w.memory k with space := (w.spaces k).removePages r }) place known := by
  obtain ⟨_, _, _, rfl⟩ := PageRange.of?_eq_ok hrange
  have hmeets := contains_iff_meets start.page length
  refine h.retable rfl (fun number ↦ ?_) (fun number s hs ↦ ?_)
  · simp only [AddressSpace.getElem?_removePages]
    by_cases hin :
        (⟨start.page, roundUpToPage length / pageSize⟩ : PageRange).contains number = true
    · rw [if_pos hin, if_pos ((hmeets number).mp hin)]
      rfl
    · rw [if_neg hin, if_neg (fun hmeet ↦ hin ((hmeets number).mpr hmeet))]
      exact h.page k number
  · by_cases hin : meets start.page length number
    · rw [if_pos hin] at hs
      cases hs
    · rw [if_neg hin] at hs
      exact h.mapped_known k number s hs

/-- Permissions are no matter of the ledger. -/
theorem protect (h : l.Describes w place known) {k : Nat} (r : PageRange) (p : Permissions) :
    l.Describes (w.replace k { w.memory k with space := (w.spaces k).setPermissions r p }) place
      known := by
  have htable : Function.update l.table k (l.table k) = l.table := Function.update_eq_self k l.table
  have hretable := h.retable (k := k) (m := { w.memory k with
    space := (w.spaces k).setPermissions r p }) rfl (fun number ↦ ?_) (h.mapped_known k)
  · rwa [htable] at hretable
  · rw [← h.page k number, AddressSpace.getElem?_setPermissions, Option.map_map]
    refine Option.map_congr fun page _ ↦ ?_
    by_cases hin : r.contains number = true
    · simp [hin, Page.origin]
    · simp [hin, Page.origin]

/-! ### Requests -/

theorem ofMapping (h : l.Describes w place known) {k : Nat} {r : Request}
    {result : Except MapError (Region × Memory)}
    (hmapped : ∀ region m, result = .ok (region, m) → ∃ place' known',
      (l.accepted k region.first r).Describes (w.replace k m) place' known') :
    ∃ place' known', (l.request k r (Answer.ofMapping (w.memory k) result).1).Describes
      (w.replace k (Answer.ofMapping (w.memory k) result).2) place' known' := by
  cases result with
  | error error =>
    rw [Answer.ofMapping, World.replace_memory]
    exact ⟨place, known, h⟩
  | ok mapped => exact hmapped mapped.1 mapped.2 rfl

theorem ofChange (h : l.Describes w place known) {ε : Type} {k : Nat} {r : Request}
    {result : Except ε Memory}
    (hchanged : ∀ m, result = .ok m →
      (l.accepted k 0 r).Describes (w.replace k m) place known) :
    ∃ place' known', (l.request k r (Answer.ofChange (w.memory k) result).1).Describes
      (w.replace k (Answer.ofChange (w.memory k) result).2) place' known' := by
  cases result with
  | error error =>
    rw [Answer.ofChange, World.replace_memory]
    exact ⟨place, known, h⟩
  | ok m => exact ⟨place, known, hchanged m rfl⟩

/-- Bytes stored through an address space are entered in the ledger. -/
theorem stored (h : l.Describes w place known) {k : Nat} (a : Address) (bytes : List UInt8) :
    (l.store k a bytes).Describes (w.replace k ((w.memory k).store a bytes)) place known :=
  h.store rfl ((w.memory k).stored_store a bytes).next ((w.memory k).contents_store a bytes)

/-- A request is described by the ledger in which it was entered. -/
theorem request (h : l.Describes w place known) (hw : w.WellFormed) (k : Nat) (r : Request) :
    ∃ place' known', (l.request k r (r.perform w.runs (w.memory k)).1).Describes
      (w.replace k (r.perform w.runs (w.memory k)).2) place' known' := by
  have hrefused : ∃ place' known', l.Describes (w.replace k (w.memory k)) place' known' := by
    rw [World.replace_memory]
    exact ⟨place, known, h⟩
  cases r with
  | map start length p source =>
    simp only [Request.perform]
    cases hsource : source.backing? w.runs with
    | none => exact hrefused
    | some b =>
      refine h.ofMapping fun region m hmap ↦ ?_
      obtain ⟨range, hrange, _, hinsert⟩ := Memory.map_eq_ok hmap
      obtain ⟨_, _, _, rfl⟩ := PageRange.of?_eq_ok hrange
      have henter := h.enter hw hsource hinsert (contains_iff_meets start.page length)
      exact henter
  | mapAnywhere length p source =>
    simp only [Request.perform]
    cases hsource : source.backing? w.runs with
    | none => exact hrefused
    | some b =>
      refine h.ofMapping fun region m hmap ↦ ?_
      obtain ⟨first, _, hinsert⟩ := Memory.mapAnywhere_eq_ok hmap
      obtain ⟨_, _, rfl, _⟩ := Memory.insertPages_eq_ok hinsert
      have henter := h.enter hw hsource hinsert (contains_iff_meets first length)
      exact henter
  | unmap start length =>
    refine h.ofChange fun m hunmap ↦ ?_
    obtain ⟨range, hrange, rfl⟩ := Memory.unmap_eq_ok hunmap
    exact h.remove hrange
  | discard start length =>
    refine h.ofChange fun m hdiscard ↦ ?_
    obtain ⟨count, hresult⟩ := exists_ok_of_map_snd hdiscard
    obtain ⟨range, hrange, rfl⟩ := Memory.discard_eq_ok hresult
    exact h.remove hrange
  | protect start length p =>
    refine h.ofChange fun m hprotect ↦ ?_
    obtain ⟨range, _, rfl⟩ := Memory.protect_eq_ok hprotect
    exact h.protect range p
  | write a bytes =>
    refine h.ofChange fun m hwrite ↦ ?_
    obtain ⟨_, rfl⟩ := Memory.write_eq_ok.mp hwrite
    exact h.stored a bytes
  | poke a bytes =>
    refine h.ofChange fun m hpoke ↦ ?_
    obtain ⟨_, rfl⟩ := Memory.poke_eq_ok.mp hpoke
    exact h.stored a bytes
  | writeNat a count value =>
    refine h.ofChange fun m hwrite ↦ ?_
    obtain ⟨_, rfl⟩ := Memory.write_eq_ok.mp hwrite
    exact h.stored a (LittleEndian.ofNat count value)
  | update a size alignment f =>
    refine h.ofChange fun m hupdate ↦ ?_
    obtain ⟨_, hresult⟩ := exists_ok_of_map_snd hupdate
    have hatomic := Memory.atomicUpdate_of_aligned hresult
    obtain ⟨hread, _⟩ := Memory.atomicUpdate_eq_ok.mp hatomic
    have hstored := Memory.stored_atomicUpdate hatomic
    have hcontents := Memory.contents_atomicUpdate hatomic
    rw [← h.word_eq k hread] at hcontents
    exact h.store hstored.space hstored.next hcontents

/-- One action is described by the ledger in which it was entered. -/
theorem note (h : l.Describes w place known) (hw : w.WellFormed) (action : Action) :
    ∃ place' known',
      (l.note action (w.step action).1).Describes (w.step action).2 place' known' := by
  cases action with
  | share length =>
    simp only [World.step, Ledger.note]
    cases hshare : Memory.shareFrames ⟨w.frames, {}⟩ length with
    | error error => exact ⟨place, known, h⟩
    | ok made =>
      obtain ⟨run, m⟩ := made
      obtain ⟨rfl, hframes, _⟩ := Memory.shareFrames_eq_ok hshare
      refine ⟨_, _, h.allotShared ?_ (fun id ↦ ?_) hw.fresh⟩
      · rw [hframes, FrameStore.next_allocate]
      · rw [hframes, FrameStore.frame_allocate]
  | request k r => exact h.request hw k r

/-- A history is described by its ledger. -/
theorem after (h : l.Describes w place known) (hw : w.WellFormed) (history : List Action) :
    ∃ place' known', (l.after w history).Describes (w.after history) place' known' := by
  induction history generalizing l w place known with
  | nil => exact ⟨place, known, h⟩
  | cons action history ih =>
    obtain ⟨place', known', hnote⟩ := h.note hw action
    exact ih hnote (hw.step action).1

end Describes

end Ledger

/-! ### Loads -/

/-- Two addresses lie in pages that map the same frame of a run made for sharing. -/
def World.ShareFrame (w : World) (k₁ : Nat) (a₁ : Address) (k₂ : Nat) (a₂ : Address) : Prop :=
  ∃ p₁ p₂ : Page, (w.memory k₁).page? a₁ = some p₁ ∧ (w.memory k₂).page? a₂ = some p₂ ∧
    p₁.attributes.kind = .shared ∧ p₂.attributes.kind = .shared ∧ p₁.frame = p₂.frame

namespace Ledger

variable {l : Ledger} {w : World} {place : Sheet → FrameId} {known : Sheet → Prop}

/-- The page and the sheet of an address that resolves to a cell. -/
theorem Describes.exists_page (h : l.Describes w place known) {k : Nat} {a : Address} {c : Cell}
    (hc : l.cell? k a.toNat = some c) :
    l.table k a.page = some c.1 ∧ a.pageOffset = c.2 ∧
      ∃ p, (w.memory k).page? a = some p ∧ p.frame = place c.1 ∧
        (p.attributes.kind = .shared ↔ c.1.isShared) := by
  rw [Ledger.cell?, Option.map_eq_some_iff] at hc
  obtain ⟨s, hs, rfl⟩ := hc
  refine ⟨hs, rfl, ?_⟩
  have hpage := h.page k a.page
  have htable : l.table k a.page = some s := hs
  rw [htable, Option.map_some, Option.map_eq_some_iff] at hpage
  obtain ⟨p, hp, horigin⟩ := hpage
  rw [Page.origin, Prod.mk.injEq] at horigin
  refine ⟨p, hp, horigin.1, ?_⟩
  rw [← horigin.2, beq_iff_eq]

/-- Two addresses are one cell if and only if they have the same offset in the same page, or in
pages that map the same frame of a run made for sharing. -/
theorem Describes.cell_eq_iff (h : l.Describes w place known) (hexclusive : l.Exclusive)
    {k₁ k₂ : Nat} {a₁ a₂ : Address} {c₁ c₂ : Cell} (h₁ : l.cell? k₁ a₁.toNat = some c₁)
    (h₂ : l.cell? k₂ a₂.toNat = some c₂) :
    c₁ = c₂ ↔ a₁.pageOffset = a₂.pageOffset ∧
      (k₁ = k₂ ∧ a₁.page = a₂.page ∨ w.ShareFrame k₁ a₁ k₂ a₂) := by
  obtain ⟨htable₁, hoffset₁, p₁, hp₁, hframe₁, hkind₁⟩ := h.exists_page h₁
  obtain ⟨htable₂, hoffset₂, p₂, hp₂, hframe₂, hkind₂⟩ := h.exists_page h₂
  constructor
  · rintro rfl
    refine ⟨hoffset₁.trans hoffset₂.symm, ?_⟩
    obtain ⟨s, offset⟩ := c₁
    cases s with
    | own birth index => exact .inl (hexclusive.own_eq _ _ _ _ _ _ htable₁ htable₂)
    | shared handle index =>
      exact .inr ⟨p₁, p₂, hp₁, hp₂, hkind₁.mpr rfl, hkind₂.mpr rfl, hframe₁.trans hframe₂.symm⟩
  · rintro ⟨hoffset, hsame | hshare⟩
    · obtain ⟨rfl, hpage⟩ := hsame
      rw [hpage, htable₂, Option.some.injEq] at htable₁
      exact Prod.ext htable₁.symm (hoffset₁.symm.trans (hoffset.trans hoffset₂))
    · obtain ⟨q₁, q₂, hq₁, hq₂, _, _, hframe⟩ := hshare
      rw [hp₁, Option.some.injEq] at hq₁
      rw [hp₂, Option.some.injEq] at hq₂
      subst hq₁ hq₂
      rw [hframe₁, hframe₂] at hframe
      have hsheet := h.placed.injective c₁.1 c₂.1 (h.mapped_known _ _ _ htable₁)
        (h.mapped_known _ _ _ htable₂) hframe
      exact Prod.ext hsheet (hoffset₁.symm.trans (hoffset.trans hoffset₂))

/-- After any history, a load that succeeds returns for each address the value of its cell: the byte
stored to the cell last, or else the one the cell began with. Two addresses are one cell if and only
if they have the same offset in the same page, or in pages that map the same frame of a run made for
sharing. -/
theorem read_eq_latest (windows : Nat → MapWindow) (history : List Action) (k : Nat) (a : Address)
    (count : Nat) (bytes : List UInt8)
    (h : (((World.start windows).after history).memory k).read a count = .ok bytes) :
    bytes.length = count ∧
      (∀ i, i < count → ∃ c,
        (ofHistory windows history).cell? k (a + BitVec.ofNat 64 i).toNat = some c ∧
          bytes[i]? = some ((ofHistory windows history).value c)) ∧
      ∀ (k₁ k₂ : Nat) (a₁ a₂ : Address) (c₁ c₂ : Cell),
        (ofHistory windows history).cell? k₁ a₁.toNat = some c₁ →
        (ofHistory windows history).cell? k₂ a₂.toNat = some c₂ →
        (c₁ = c₂ ↔ a₁.pageOffset = a₂.pageOffset ∧
          (k₁ = k₂ ∧ a₁.page = a₂.page ∨
            ((World.start windows).after history).ShareFrame k₁ a₁ k₂ a₂)) := by
  obtain ⟨place, known, hdescribes⟩ :=
    (describes_start windows).after (World.wellFormed_start windows) history
  obtain ⟨hcheck, rfl⟩ := Memory.read_eq_ok.mp h
  refine ⟨Memory.length_bytes _ a count, fun i hi ↦ ?_, fun k₁ k₂ a₁ a₂ c₁ c₂ h₁ h₂ ↦ ?_⟩
  · obtain ⟨_, p, hp, _⟩ := Memory.page?_of_checkRange hcheck hi
    obtain ⟨c, hc⟩ := hdescribes.exists_cell hp
    refine ⟨c, hc, ?_⟩
    rw [Memory.getElem?_bytes _ a hi, hdescribes.byte_eq_value k hc]
    rfl
  · exact hdescribes.cell_eq_iff (exclusive_ofHistory windows history) h₁ h₂

/-- A run of one page is mapped at two neighbouring pages, and three bytes are stored across
both. -/
def aliasedHistory : List Action :=
  [.share 0x1000,
    .request 0 (.map 0x1000 0x1000 .readWrite (.shared 0)),
    .request 0 (.map 0x2000 0x1000 .readWrite (.shared 0)),
    .request 0 (.write 0x1fff [1, 2, 3])]

/-- The second byte of a store across two mappings of one page is seen at the start of the first. -/
theorem read_aliasedHistory :
    (((World.start fun _ ↦ {}).after aliasedHistory).memory 0).read 0x1000 2 = .ok [2, 3] ∧
      ∃ c, (ofHistory (fun _ ↦ {}) aliasedHistory).cell? 0
          ((0x1000 : Address) + BitVec.ofNat 64 0).toNat = some c ∧
        some 2 = some ((ofHistory (fun _ ↦ {}) aliasedHistory).value c) := by
  have hread : (((World.start fun _ ↦ {}).after aliasedHistory).memory 0).read 0x1000 2 =
      .ok [2, 3] := by decide +kernel
  exact ⟨hread, (read_eq_latest _ _ _ _ _ _ hread).2.1 0 (by decide)⟩

end Ledger

end LongMode
