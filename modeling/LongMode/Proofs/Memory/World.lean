import LongMode.Proofs.Memory.Access
import LongMode.Proofs.Memory.Mapping

/-!
Histories of memory. A `World` is the memory of a whole machine: its frames, any number of address
spaces over them, and the runs of frames made for sharing. A history is a list of actions; each is a
request to one address space, or makes a run of frames. What is refused changes nothing.

* `World.WellFormed` holds after every history (`wellFormed_after`): every frame behind a page or in
  a run was given out, frames not yet given out are zeros, and every page ends below 2^64.
* `World.evolves_after`: along a history frames only evolve.
-/

set_option autoImplicit false
set_option relaxedAutoImplicit false

namespace LongMode

/-- What the pages of a new mapping are filled with. Runs of shared frames are named by the order in
which they were made. -/
inductive Source where
  /-- Zeros. -/
  | anonymous
  /-- A private copy of `data` from `offset` on, zeros past its end. -/
  | file (name : String) (data : List UInt8) (offset : Nat)
  /-- The run of frames that was made as the `handle`-th. -/
  | shared (handle : Nat)

/-- The backing that a source stands for; there is none for a run that was not made. -/
def Source.backing? (runs : List SharedFrames) : Source → Option Backing
  | .anonymous => some .anonymous
  | .file name data offset => some (.file name data offset)
  | .shared handle => (runs[handle]?).map .shared

/-- A request to one address space. -/
inductive Request where
  | map (start : Address) (length : Nat) (p : Permissions) (source : Source)
  | mapAnywhere (length : Nat) (p : Permissions) (source : Source)
  | unmap (start : Address) (length : Nat)
  | discard (start : Address) (length : Nat)
  | protect (start : Address) (length : Nat) (p : Permissions)
  | write (a : Address) (bytes : List UInt8)
  | poke (a : Address) (bytes : List UInt8)
  /-- A store of the `count` lowest bytes of a number. -/
  | writeNat (a : Address) (count value : Nat)
  /-- An indivisible update of a cell, which has to be aligned if `alignment` is above one. -/
  | update (a : Address) (size alignment : Nat) (f : BitVec (8 * size) → BitVec (8 * size))

/-- What a request is answered with. -/
inductive Answer where
  /-- Nothing was done. -/
  | refused
  /-- It was done. -/
  | done
  /-- Pages were mapped from this page number on. -/
  | placed (first : Nat)

namespace Answer

/-- The answer to a mapping, and the memory after it. -/
def ofMapping (m : Memory) : Except MapError (Region × Memory) → Answer × Memory
  | .ok (region, after) => (.placed region.first, after)
  | .error _ => (.refused, m)

/-- The answer to a change, and the memory after it. -/
def ofChange {ε : Type} (m : Memory) : Except ε Memory → Answer × Memory
  | .ok after => (.done, after)
  | .error _ => (.refused, m)

end Answer

/-- Carry out a request. -/
def Request.perform (runs : List SharedFrames) (m : Memory) : Request → Answer × Memory
  | map start length p source =>
    match source.backing? runs with
    | some b => Answer.ofMapping m (m.map start length p b)
    | none => (.refused, m)
  | mapAnywhere length p source =>
    match source.backing? runs with
    | some b => Answer.ofMapping m (m.mapAnywhere length p b)
    | none => (.refused, m)
  | unmap start length => Answer.ofChange m (m.unmap start length)
  | discard start length => Answer.ofChange m ((m.discard start length).map Prod.snd)
  | protect start length p => Answer.ofChange m (m.protect start length p)
  | write a bytes => Answer.ofChange m (m.write a bytes)
  | poke a bytes => Answer.ofChange m (m.poke a bytes)
  | writeNat a count value => Answer.ofChange m (m.writeNat a count value)
  | update a size alignment f =>
    Answer.ofChange m ((m.atomicUpdateAligned a size alignment fun old ↦ (f old, ())).map Prod.snd)

/-- Something that happens to the memory of a machine. -/
inductive Action where
  /-- A run of frames for sharing is made. -/
  | share (length : Nat)
  /-- A request to one of the address spaces. -/
  | request (space : Nat) (r : Request)

/-- The memory of a whole machine. -/
structure World where
  /-- The frames. -/
  frames : FrameStore := {}
  /-- The address spaces by number. -/
  spaces : Nat → AddressSpace
  /-- The runs of frames made for sharing, in the order they were made. -/
  runs : List SharedFrames := []

namespace World

/-- No frames are in use and nothing is mapped. -/
def start (windows : Nat → MapWindow) : World where
  spaces := fun k ↦ { window := windows k }

/-- The memory as one address space sees it. -/
def memory (w : World) (k : Nat) : Memory :=
  ⟨w.frames, w.spaces k⟩

/-- The world after something was done through one address space. -/
def replace (w : World) (k : Nat) (m : Memory) : World :=
  { w with frames := m.frames, spaces := Function.update w.spaces k m.space }

/-- One action: its answer, and the world after it. -/
def step (w : World) : Action → Answer × World
  | .share length =>
    match Memory.shareFrames ⟨w.frames, {}⟩ length with
    | .ok (run, m) => (.done, { w with frames := m.frames, runs := w.runs ++ [run] })
    | .error _ => (.refused, w)
  | .request k r =>
    let (answer, m) := r.perform w.runs (w.memory k)
    (answer, w.replace k m)

/-- The world after a history. -/
def after (w : World) (history : List Action) : World :=
  history.foldl (fun w action ↦ (w.step action).2) w

theorem after_append (w : World) (history later : List Action) :
    w.after (history ++ later) = (w.after history).after later := by
  rw [after, after, after, List.foldl_append]

@[simp] theorem replace_memory (w : World) (k : Nat) : w.replace k (w.memory k) = w := by
  simp [replace, memory]

/-! ### What holds after every history -/

/-- Frames in use were given out, frames that were not are zeros, and every mapped page ends below
2^64. -/
structure WellFormed (w : World) : Prop where
  mapped_lt (k number : Nat) (p : Page) :
    (w.spaces k).pages[number]? = some p → p.frame < w.frames.next
  page_lt (k number : Nat) (p : Page) :
    (w.spaces k).pages[number]? = some p → (number + 1) * pageSize < addressLimit
  run_le (handle : Nat) (run : SharedFrames) :
    w.runs[handle]? = some run → run.first + run.count ≤ w.frames.next
  fresh (id : FrameId) : w.frames.next ≤ id → w.frames.frame id = .zeroed

end World

/-! ### One request -/

/-- Memory whose pages end below 2^64 and have frames that were given out, in a machine whose other
frames are zeros. -/
structure Memory.WellFormed (m : Memory) : Prop where
  mapped_lt (number : Nat) (p : Page) :
    m.space.pages[number]? = some p → p.frame < m.frames.next
  page_lt (number : Nat) (p : Page) :
    m.space.pages[number]? = some p → (number + 1) * pageSize < addressLimit
  fresh (id : FrameId) : m.frames.next ≤ id → m.frames.frame id = .zeroed

/-- Memory before and after a request to its address space: frames evolve, and the memory after it
is well formed. -/
structure Memory.Succeeds (m m' : Memory) : Prop where
  evolves : m.frames.Evolves m'.frames
  wellFormed : m'.WellFormed

namespace Memory

theorem WellFormed.succeeds {m : Memory} (h : m.WellFormed) : m.Succeeds m :=
  ⟨.refl _, h⟩

theorem WellFormed.lt_of_backs {m : Memory} (h : m.WellFormed) {id : FrameId} (hid : m.Backs id) :
    id < m.frames.next := by
  obtain ⟨number, p, hpage, rfl⟩ := hid
  exact h.mapped_lt number p hpage

theorem Stored.succeeds {m m' : Memory} (h : m.Stored m') (hm : m.WellFormed) : m.Succeeds m' := by
  refine ⟨h.evolves, fun number p hpage ↦ ?_, fun number p hpage ↦ ?_, fun id hid ↦ ?_⟩
  · rw [h.space] at hpage
    rw [h.next]
    exact hm.mapped_lt number p hpage
  · rw [h.space] at hpage
    exact hm.page_lt number p hpage
  · rw [h.next] at hid
    rcases h.same_or_newer id with hsame | ⟨_, hback⟩
    · rw [hsame]
      exact hm.fresh id hid
    · exact absurd (hm.lt_of_backs hback) (Nat.not_lt_of_le hid)

/-- An operation on the page table that leaves frames alone and enters no frame. -/
theorem succeeds_of_space {m : Memory} (hm : m.WellFormed) {space : AddressSpace}
    (h : ∀ (number : Nat) (p : Page), space.pages[number]? = some p →
      ∃ q : Page, m.space.pages[number]? = some q ∧ q.frame = p.frame) :
    m.Succeeds { m with space } := by
  refine ⟨.refl _, fun number p hpage ↦ ?_, fun number p hpage ↦ ?_, hm.fresh⟩
  · obtain ⟨q, hq, hframe⟩ := h number p hpage
    rw [← hframe]
    exact hm.mapped_lt number q hq
  · obtain ⟨q, hq, _⟩ := h number p hpage
    exact hm.page_lt number q hq

theorem succeeds_removePages {m : Memory} (hm : m.WellFormed) (r : PageRange) :
    m.Succeeds { m with space := m.space.removePages r } := by
  refine succeeds_of_space hm fun number p hpage ↦ ⟨p, ?_, rfl⟩
  rw [AddressSpace.getElem?_removePages] at hpage
  by_cases h : r.contains number = true
  · simp [h] at hpage
  · simpa [h] using hpage

theorem succeeds_setPermissions {m : Memory} (hm : m.WellFormed) (r : PageRange)
    (permissions : Permissions) :
    m.Succeeds { m with space := m.space.setPermissions r permissions } := by
  refine succeeds_of_space hm fun number p hpage ↦ ?_
  rw [AddressSpace.getElem?_setPermissions, Option.map_eq_some_iff] at hpage
  obtain ⟨q, hq, rfl⟩ := hpage
  refine ⟨q, hq, ?_⟩
  by_cases h : r.contains number = true
  · simp [h]
  · simp [h]

/-- Frames taken for a mapping were given out, and no frame in use changes. -/
theorem prepareFrames_spec {m : Memory} (hm : m.WellFormed) {frames : FrameStore}
    {start : Address} {count : Nat} {b : Backing} {first : FrameId}
    (h : prepareFrames m.frames start count b = .ok (first, frames))
    (hrun : ∀ run, b = .shared run → run.first + run.count ≤ m.frames.next) :
    m.frames.Evolves frames ∧ first + count ≤ frames.next ∧
      ∀ id, frames.next ≤ id → frames.frame id = .zeroed := by
  by_cases hprivate : b.isPrivate = true
  · obtain ⟨rfl, hnext, hframe⟩ := prepareFrames_of_isPrivate hprivate h hm.fresh
    refine ⟨⟨by lia, fun id hid ↦ .inl ?_⟩, Nat.le_of_eq hnext.symm, fun id hid ↦ ?_⟩
    · rw [hframe, if_neg (by lia)]
    · rw [hframe, if_neg (by lia)]
      exact hm.fresh id (by lia)
  · cases b with
    | anonymous => exact absurd rfl hprivate
    | file name data offset => exact absurd rfl hprivate
    | shared run =>
      obtain ⟨hcount, rfl, rfl⟩ := prepareFrames_shared h
      have hle := hrun run rfl
      exact ⟨.refl _, by lia, hm.fresh⟩

theorem succeeds_insertPages {m m' : Memory} (hm : m.WellFormed) {r : PageRange} {p : Permissions}
    {b : Backing} {region : Region} (h : m.insertPages r p b = .ok (region, m'))
    (hrun : ∀ run, b = .shared run → run.first + run.count ≤ m.frames.next)
    (hstop : r.stop * pageSize < addressLimit) : m.Succeeds m' := by
  obtain ⟨first, hprepare, _, _, hpages⟩ := insertPages_eq_ok h
  obtain ⟨hevolves, hlast, hfresh⟩ := prepareFrames_spec hm hprepare hrun
  refine ⟨hevolves, fun number q hq ↦ ?_, fun number q hq ↦ ?_, hfresh⟩
  · rw [hpages] at hq
    by_cases hin : r.contains number = true
    · rw [if_pos hin, Option.some.injEq] at hq
      rw [PageRange.contains_iff] at hin
      subst hq
      simp only
      lia
    · rw [if_neg hin] at hq
      exact Nat.lt_of_lt_of_le (hm.mapped_lt number q hq) hevolves.next_le
  · rw [hpages] at hq
    by_cases hin : r.contains number = true
    · rw [PageRange.contains_iff] at hin
      have hle : number + 1 ≤ r.stop := hin.2
      exact Nat.lt_of_le_of_lt (Nat.mul_le_mul_right _ hle) hstop
    · rw [if_neg hin] at hq
      exact hm.page_lt number q hq

/-- Memory that succeeds another one is succeeded in turn. -/
theorem Succeeds.trans {m₁ m₂ m₃ : Memory} (h : m₁.Succeeds m₂) (h' : m₂.Succeeds m₃) :
    m₁.Succeeds m₃ :=
  ⟨h.evolves.trans h'.evolves, h'.wellFormed⟩

/-- Memory that is well formed is succeeded by another one. -/
def Yields (m m' : Memory) : Prop :=
  m.WellFormed → m.Succeeds m'

instance isPreorder_yields : IsPreorder Memory Yields where
  refl _ h := h.succeeds
  trans _ _ _ h h' hm := (h hm).trans (h' (h hm).wellFormed)

theorem Stored.yields {m m' : Memory} (h : m.Stored m') : m.Yields m' :=
  h.succeeds

/-! ### Changes of the page table -/

section Pages

variable {m m' : Memory} {start : Address} {length : Nat} {p : Permissions} {b : Backing}
  {region : Region}

theorem succeeds_map (hm : m.WellFormed) (h : m.map start length p b = .ok (region, m'))
    (hrun : ∀ run, b = .shared run → run.first + run.count ≤ m.frames.next) : m.Succeeds m' := by
  obtain ⟨range, hrange, _, hinsert⟩ := map_eq_ok h
  exact succeeds_insertPages hm hinsert hrun (PageRange.stop_lt_of_of? hrange)

theorem succeeds_mapAnywhere (hm : m.WellFormed)
    (h : m.mapAnywhere length p b = .ok (region, m'))
    (hrun : ∀ run, b = .shared run → run.first + run.count ≤ m.frames.next) : m.Succeeds m' := by
  obtain ⟨first, hfit, hinsert⟩ := mapAnywhere_eq_ok h
  have hstop := Nat.lt_of_le_of_lt (AddressSpace.stop_le_of_firstFit? hfit)
    (Address.toNat_lt m.space.window.stop)
  exact succeeds_insertPages hm hinsert hrun hstop

theorem succeeds_discard (hm : m.WellFormed) {count : Nat}
    (h : m.discard start length = .ok (count, m')) : m.Succeeds m' := by
  obtain ⟨range, _, rfl⟩ := discard_eq_ok h
  exact succeeds_removePages hm range

theorem succeeds_protect (hm : m.WellFormed) (h : m.protect start length p = .ok m') :
    m.Succeeds m' := by
  obtain ⟨range, _, rfl⟩ := protect_eq_ok h
  exact succeeds_setPermissions hm range p

/-- The frames of a new run have been given out. -/
theorem run_le_of_shareFrames {run : SharedFrames} (h : m.shareFrames length = .ok (run, m')) :
    run.first + run.count ≤ m'.frames.next := by
  obtain ⟨rfl, hframes, _⟩ := shareFrames_eq_ok h
  refine Nat.le_of_eq ?_
  rw [hframes, FrameStore.next_allocate]

theorem succeeds_shareFrames (hm : m.WellFormed) {run : SharedFrames}
    (h : m.shareFrames length = .ok (run, m')) : m.Succeeds m' := by
  obtain ⟨_, hframes, hspace⟩ := shareFrames_eq_ok h
  have hnext : m.frames.next ≤ m'.frames.next := by
    rw [hframes, FrameStore.next_allocate]
    exact Nat.le_add_right _ _
  have hframe (id : FrameId) : m'.frames.frame id = m.frames.frame id := by
    rw [hframes, FrameStore.frame_allocate]
  refine ⟨⟨hnext, fun id _ ↦ .inl (hframe id)⟩, fun number p hpage ↦ ?_, fun number p hpage ↦ ?_,
    fun id hid ↦ ?_⟩
  · rw [hspace] at hpage
    exact Nat.lt_of_lt_of_le (hm.mapped_lt number p hpage) hnext
  · rw [hspace] at hpage
    exact hm.page_lt number p hpage
  · rw [hframe]
    exact hm.fresh id (Nat.le_trans hnext hid)

end Pages

end Memory

namespace Answer

theorem succeeds_ofMapping {m : Memory} (hm : m.WellFormed)
    {result : Except MapError (Region × Memory)}
    (h : ∀ region m', result = .ok (region, m') → m.Succeeds m') :
    m.Succeeds (ofMapping m result).2 := by
  cases result with
  | error error => exact hm.succeeds
  | ok mapped => exact h mapped.1 mapped.2 rfl

theorem succeeds_ofChange {ε : Type} {m : Memory} (hm : m.WellFormed) {result : Except ε Memory}
    (h : ∀ m', result = .ok m' → m.Succeeds m') : m.Succeeds (ofChange m result).2 := by
  cases result with
  | error error => exact hm.succeeds
  | ok m' => exact h m' rfl

end Answer

/-- The run behind a source is one of those that were made. -/
theorem Source.mem_of_backing?_eq_shared {runs : List SharedFrames} {source : Source}
    {run : SharedFrames} (h : source.backing? runs = some (.shared run)) :
    ∃ handle, source = .shared handle ∧ runs[handle]? = some run := by
  cases source with
  | anonymous => exact nomatch h
  | file name data offset => exact nomatch h
  | shared handle =>
    simp only [backing?, Option.map_eq_some_iff, Backing.shared.injEq, exists_eq_right] at h
    exact ⟨handle, rfl, h⟩

/-- A request leaves memory well formed, and frames only evolve. -/
theorem Request.succeeds_perform {runs : List SharedFrames} {m : Memory} (hm : m.WellFormed)
    (hruns : ∀ (handle : Nat) (run : SharedFrames), runs[handle]? = some run →
      run.first + run.count ≤ m.frames.next) (r : Request) :
    m.Succeeds (r.perform runs m).2 := by
  have hrun : ∀ {source : Source} {b : Backing}, source.backing? runs = some b →
      ∀ run, b = .shared run → run.first + run.count ≤ m.frames.next := by
    intro source b hb run hshared
    rw [hshared] at hb
    obtain ⟨handle, _, hhandle⟩ := Source.mem_of_backing?_eq_shared hb
    exact hruns handle run hhandle
  cases r with
  | map start length p source =>
    simp only [perform]
    cases hb : source.backing? runs with
    | none => exact hm.succeeds
    | some b =>
      exact Answer.succeeds_ofMapping hm fun region m' h ↦ Memory.succeeds_map hm h (hrun hb)
  | mapAnywhere length p source =>
    simp only [perform]
    cases hb : source.backing? runs with
    | none => exact hm.succeeds
    | some b =>
      exact Answer.succeeds_ofMapping hm fun region m' h ↦
        Memory.succeeds_mapAnywhere hm h (hrun hb)
  | unmap start length =>
    refine Answer.succeeds_ofChange hm fun m' h ↦ ?_
    obtain ⟨range, _, rfl⟩ := Memory.unmap_eq_ok h
    exact Memory.succeeds_removePages hm range
  | discard start length =>
    refine Answer.succeeds_ofChange hm fun m' h ↦ ?_
    obtain ⟨count, hdiscard⟩ := exists_ok_of_map_snd h
    exact Memory.succeeds_discard hm hdiscard
  | protect start length p =>
    exact Answer.succeeds_ofChange hm fun m' h ↦ Memory.succeeds_protect hm h
  | write a bytes =>
    exact Answer.succeeds_ofChange hm fun m' h ↦ (Memory.stored_write h).succeeds hm
  | poke a bytes =>
    exact Answer.succeeds_ofChange hm fun m' h ↦ (Memory.stored_poke h).succeeds hm
  | writeNat a count value =>
    exact Answer.succeeds_ofChange hm fun m' h ↦ (Memory.stored_write h).succeeds hm
  | update a size alignment f =>
    refine Answer.succeeds_ofChange hm fun m' h ↦ ?_
    obtain ⟨_, hupdate⟩ := exists_ok_of_map_snd h
    exact (Memory.stored_atomicUpdate (Memory.atomicUpdate_of_aligned hupdate)).succeeds hm

/-! ### Histories -/

namespace World

theorem wellFormed_start (windows : Nat → MapWindow) : (start windows).WellFormed := by
  refine ⟨fun k number p h ↦ ?_, fun k number p h ↦ ?_, fun handle run h ↦ ?_, fun id _ ↦ ?_⟩
  · simp [start] at h
  · simp [start] at h
  · simp [start] at h
  · simp [start, FrameStore.frame]

theorem WellFormed.memory {w : World} (h : w.WellFormed) (k : Nat) : (w.memory k).WellFormed :=
  ⟨h.mapped_lt k, h.page_lt k, h.fresh⟩

/-- What is done through one space leaves the world well formed. -/
theorem WellFormed.replace {w : World} (h : w.WellFormed) {k : Nat} {m : Memory}
    (hm : (w.memory k).Succeeds m) : (w.replace k m).WellFormed := by
  have hnext : w.frames.next ≤ m.frames.next := hm.evolves.next_le
  refine ⟨fun k' number p hpage ↦ ?_, fun k' number p hpage ↦ ?_, fun handle run hrun ↦ ?_,
    hm.wellFormed.fresh⟩
  · by_cases hk : k' = k
    · subst hk
      simp only [World.replace, Function.update_self] at hpage
      exact hm.wellFormed.mapped_lt number p hpage
    · simp only [World.replace, Function.update_of_ne hk] at hpage
      exact Nat.lt_of_lt_of_le (h.mapped_lt k' number p hpage) hnext
  · by_cases hk : k' = k
    · subst hk
      simp only [World.replace, Function.update_self] at hpage
      exact hm.wellFormed.page_lt number p hpage
    · simp only [World.replace, Function.update_of_ne hk] at hpage
      exact h.page_lt k' number p hpage
  · exact Nat.le_trans (h.run_le handle run hrun) hnext

/-- One action keeps the world well formed, and frames only evolve. -/
theorem WellFormed.step {w : World} (h : w.WellFormed) (action : Action) :
    (w.step action).2.WellFormed ∧ w.frames.Evolves (w.step action).2.frames := by
  cases action with
  | share length =>
    simp only [World.step]
    cases hshare : Memory.shareFrames ⟨w.frames, {}⟩ length with
    | error error => exact ⟨h, .refl _⟩
    | ok made =>
      obtain ⟨run, m⟩ := made
      obtain ⟨rfl, hframes, _⟩ := Memory.shareFrames_eq_ok hshare
      have hnext : m.frames.next = w.frames.next + roundUpToPage length / pageSize := by
        rw [hframes, FrameStore.next_allocate]
      have hframe (id : FrameId) : m.frames.frame id = w.frames.frame id := by
        rw [hframes, FrameStore.frame_allocate]
      refine ⟨⟨fun k number p hpage ↦ ?_, h.page_lt, fun handle run hrun ↦ ?_, fun id hid ↦ ?_⟩, ?_⟩
      · have hlt := h.mapped_lt k number p hpage
        simp only [hnext]
        lia
      · simp only [List.getElem?_append, List.getElem?_singleton] at hrun
        simp only [hnext]
        by_cases hold : handle < w.runs.length
        · rw [if_pos hold] at hrun
          have hle := h.run_le handle run hrun
          lia
        · rw [if_neg hold] at hrun
          by_cases hnew : handle - w.runs.length = 0
          · rw [if_pos hnew, Option.some.injEq] at hrun
            subst hrun
            exact Nat.le_refl _
          · rw [if_neg hnew] at hrun
            exact nomatch hrun
      · simp only [hnext] at hid
        rw [hframe]
        exact h.fresh id (by lia)
      · refine ⟨by simp only [hnext]; lia, fun id _ ↦ .inl (hframe id)⟩
  | request k r =>
    have hsucceeds := r.succeeds_perform (h.memory k) h.run_le
    exact ⟨h.replace hsucceeds, hsucceeds.evolves⟩

theorem WellFormed.after {w : World} (h : w.WellFormed) (history : List Action) :
    (w.after history).WellFormed ∧ w.frames.Evolves (w.after history).frames := by
  induction history generalizing w with
  | nil => exact ⟨h, .refl _⟩
  | cons action history ih =>
    obtain ⟨hstep, hevolves⟩ := h.step action
    obtain ⟨hafter, hevolves'⟩ := ih hstep
    exact ⟨hafter, hevolves.trans hevolves'⟩

/-- After every history the frames in use were given out, and the others are zeros. -/
theorem wellFormed_after (windows : Nat → MapWindow) (history : List Action) :
    ((start windows).after history).WellFormed :=
  ((wellFormed_start windows).after history).1

/-- Along a history frames only evolve. -/
theorem evolves_after {w : World} (h : w.WellFormed) (history : List Action) :
    w.frames.Evolves (w.after history).frames :=
  (h.after history).2

end World

end LongMode
