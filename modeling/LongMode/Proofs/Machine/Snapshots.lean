import LongMode.Proofs.Machine.Discipline

/-!
Snapshots of memory. A snapshot may have frames of its own, and its permissions and versions do not
matter: the same addresses are mapped in it and have the same bytes, and two of its pages share a
frame exactly if the same two pages of the memory do (`Memory.Mimics`). A snapshot in which recorded
stores are made stays one, whatever aliases there are (`Memory.Mimics.replay`).
-/

set_option autoImplicit false
set_option relaxedAutoImplicit false

namespace LongMode

namespace Memory

/-- Make stores in memory, whatever the permissions say. -/
def replay (m : Memory) (log : List MemoryWrite) : Memory :=
  log.foldl (fun m write ↦ m.store write.address write.bytes) m

theorem space_replay (m : Memory) (log : List MemoryWrite) : (m.replay log).space = m.space := by
  induction log generalizing m with
  | nil => rfl
  | cons write log ih => exact (ih _).trans (m.stored_store write.address write.bytes).space

theorem contents_replay (m : Memory) (log : List MemoryWrite) :
    (m.replay log).frames.contents =
      FrameStore.assign m.frames.contents (m.space.cellsOf log) := by
  induction log generalizing m with
  | nil => rfl
  | cons write log ih =>
    have hrest := ih (m.store write.address write.bytes)
    rw [(m.stored_store write.address write.bytes).space, m.contents_store] at hrest
    rw [AddressSpace.cellsOf, List.flatMap_cons, FrameStore.assign_append]
    exact hrest

/-! ### Snapshots -/

/-- A memory in which the same addresses are mapped as in another one, the same pages share a frame,
and all bytes are the same. -/
structure Mimics (s m : Memory) : Prop where
  mapped (page : Nat) : s.space.pages[page]?.isSome = m.space.pages[page]?.isSome
  shared (page page' : Nat) (p p' q q' : Page) : s.space.pages[page]? = some p →
    s.space.pages[page']? = some p' → m.space.pages[page]? = some q →
    m.space.pages[page']? = some q' → (p.frame = p'.frame ↔ q.frame = q'.frame)
  byte (a : Address) : s.byte a = m.byte a

namespace Mimics

variable {s m : Memory}

theorem refl (m : Memory) : m.Mimics m := by
  refine ⟨fun _ ↦ rfl, fun page page' p p' q q' hp hp' hq hq' ↦ ?_, fun _ ↦ rfl⟩
  obtain rfl := Option.some.inj (hp.symm.trans hq)
  obtain rfl := Option.some.inj (hp'.symm.trans hq')
  exact Iff.rfl

theorem symm (h : s.Mimics m) : m.Mimics s :=
  ⟨fun page ↦ (h.mapped page).symm,
    fun page page' p p' q q' hp hp' hq hq' ↦ (h.shared page page' q q' p p' hq hq' hp hp').symm,
    fun a ↦ (h.byte a).symm⟩

theorem cell?_imp (h : s.Mimics m) {n n' : Nat} {c d : FrameId × Nat}
    (hc : s.space.cell? n = some c) (hd : m.space.cell? n = some d)
    (hn' : s.space.cell? n' = some c) : m.space.cell? n' = some d := by
  obtain ⟨p, hp, rfl⟩ := Option.map_eq_some_iff.mp hc
  obtain ⟨q, hq, rfl⟩ := Option.map_eq_some_iff.mp hd
  obtain ⟨p', hp', hcell⟩ := Option.map_eq_some_iff.mp hn'
  obtain ⟨q', hq'⟩ := Option.isSome_iff_exists.mp
    ((h.mapped (n' / pageSize)).symm.trans (Option.isSome_iff_exists.mpr ⟨p', hp'⟩))
  obtain ⟨hframe, hoffset⟩ := Prod.mk.inj hcell
  have hsame := (h.shared _ _ p' p q' q hp' hp hq' hq).mp hframe
  rw [AddressSpace.cell?, hq', Option.map_some, hsame, hoffset]

/-- The same numbers resolve to corresponding cells. -/
theorem cell?_iff (h : s.Mimics m) {n : Nat} {c d : FrameId × Nat}
    (hc : s.space.cell? n = some c) (hd : m.space.cell? n = some d) (n' : Nat) :
    s.space.cell? n' = some c ↔ m.space.cell? n' = some d :=
  ⟨h.cell?_imp hc hd, h.symm.cell?_imp hd hc⟩

theorem assign_cellsOf (h : s.Mimics m) {n : Nat} {c d : FrameId × Nat}
    (hc : s.space.cell? n = some c) (hd : m.space.cell? n = some d) (log : List MemoryWrite)
    {f g : FrameId × Nat → UInt8} (hbyte : f c = g d) :
    FrameStore.assign f (s.space.cellsOf log) c = FrameStore.assign g (m.space.cellsOf log) d := by
  induction log generalizing f g with
  | nil => exact hbyte
  | cons write log ih =>
    rw [AddressSpace.cellsOf, AddressSpace.cellsOf, List.flatMap_cons, List.flatMap_cons,
      FrameStore.assign_append, FrameStore.assign_append]
    exact ih (assign_spread_congr (h.cell?_iff hc hd) _ _ hbyte)

/-- A snapshot in which the stores are made that were recorded is a snapshot of the memory that they
lead to. -/
theorem replay (h : s.Mimics m) {m' : Memory} {log : List MemoryWrite}
    (hspace : m'.space = m.space) (hcontents : m'.frames.contents =
      FrameStore.assign m.frames.contents (m.space.cellsOf log)) :
    (s.replay log).Mimics m' := by
  refine ⟨fun page ↦ ?_, fun page page' p p' q q' ↦ ?_, fun a ↦ ?_⟩
  · rw [space_replay, hspace]
    exact h.mapped page
  · rw [space_replay, hspace]
    exact h.shared page page' p p' q q'
  · have hmapped := h.mapped a.page
    have hspaceReplay := s.space_replay log
    cases hp : s.space.pages[a.page]? with
    | none =>
      rw [hp, Option.isSome_none, eq_comm, Option.isSome_eq_false_iff, Option.isNone_iff_eq_none]
        at hmapped
      rw [← hspaceReplay] at hp
      rw [← hspace] at hmapped
      exact ((s.replay log).byte_of_unmapped hp).trans (m'.byte_of_unmapped hmapped).symm
    | some p =>
      rw [hp, Option.isSome_some, eq_comm] at hmapped
      obtain ⟨q, hq⟩ := Option.isSome_iff_exists.mp hmapped
      have hc : s.space.cell? a.toNat = some (p.frame, a.pageOffset) := by
        rw [AddressSpace.cell?]
        exact congrArg _ hp
      have hd : m.space.cell? a.toNat = some (q.frame, a.pageOffset) := by
        rw [AddressSpace.cell?]
        exact congrArg _ hq
      have hbyte := h.byte a
      rw [byte_eq_contents s hc, byte_eq_contents m hd] at hbyte
      rw [byte_eq_contents _ (by rw [hspaceReplay]; exact hc),
        byte_eq_contents _ (by rw [hspace]; exact hd), contents_replay, hcontents]
      exact h.assign_cellsOf hc hd log hbyte

end Mimics

end Memory

end LongMode
