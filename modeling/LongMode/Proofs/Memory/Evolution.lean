import LongMode.Memory.Atomic
import LongMode.Proofs.Memory.Frames

/-!
How memory changes from one moment to a later one.

* `FrameStore.Evolves` relates the frames of a machine at two moments: a frame that had been given
  out is what it was, or it counts more stores than before. A frame number together with a version
  therefore names one and the same contents for good.
* `Memory.Stored` relates memory before and after stores through one address space: the page table
  stays, and only frames behind its pages change, each of them counting a store.

`Memory.store` and `Memory.storeCell` are such stores (`stored_store`, `stored_storeCell`), and so
are the checked operations built on them.
-/

set_option autoImplicit false
set_option relaxedAutoImplicit false

namespace LongMode

/-! ### Frames over time -/

/-- The frames at a later moment: every number given out earlier names the same frame as before or
one that has seen more stores. -/
structure FrameStore.Evolves (s s' : FrameStore) : Prop where
  next_le : s.next ≤ s'.next
  same_or_newer (id : FrameId) : id < s.next →
    s'.frame id = s.frame id ∨ (s.frame id).version < (s'.frame id).version

namespace FrameStore.Evolves

theorem refl (s : FrameStore) : s.Evolves s :=
  ⟨Nat.le_refl _, fun _ _ ↦ .inl rfl⟩

theorem trans {s₁ s₂ s₃ : FrameStore} (h : s₁.Evolves s₂) (h' : s₂.Evolves s₃) :
    s₁.Evolves s₃ := by
  refine ⟨Nat.le_trans h.next_le h'.next_le, fun id hid ↦ ?_⟩
  have hid' : id < s₂.next := Nat.lt_of_lt_of_le hid h.next_le
  rcases h.same_or_newer id hid with hsame | hnew
  · rw [← hsame]
    exact h'.same_or_newer id hid'
  · rcases h'.same_or_newer id hid' with hsame' | hnew'
    · rw [hsame']
      exact .inr hnew
    · exact .inr (Nat.lt_trans hnew hnew')

theorem version_le {s s' : FrameStore} (h : s.Evolves s') {id : FrameId} (hid : id < s.next) :
    (s.frame id).version ≤ (s'.frame id).version := by
  rcases h.same_or_newer id hid with hsame | hnew
  · exact Nat.le_of_eq (congrArg Frame.version hsame.symm)
  · exact Nat.le_of_lt hnew

/-- A frame that counts no more stores than before is the frame it was. -/
theorem frame_eq {s s' : FrameStore} (h : s.Evolves s') {id : FrameId} (hid : id < s.next)
    (hversion : (s'.frame id).version = (s.frame id).version) : s'.frame id = s.frame id := by
  rcases h.same_or_newer id hid with hsame | hnew
  · exact hsame
  · exact absurd hversion (Nat.ne_of_gt hnew)

end FrameStore.Evolves

/-! ### Counting stores -/

namespace FrameStore

theorem version_le_bump (s : FrameStore) (id other : FrameId) :
    (s.frame other).version ≤ ((s.bump id).frame other).version := by
  rw [frame_bump]
  by_cases h : other = id
  · simp [h]
  · simp [h]

theorem version_le_foldl_bump (ids : List FrameId) (s : FrameStore) (other : FrameId) :
    (s.frame other).version ≤ ((ids.foldl bump s).frame other).version := by
  induction ids generalizing s with
  | nil => exact Nat.le_refl _
  | cons id ids ih => exact Nat.le_trans (s.version_le_bump id other) (ih (s.bump id))

theorem version_lt_foldl_bump {ids : List FrameId} (s : FrameStore) {other : FrameId}
    (h : other ∈ ids) : (s.frame other).version < ((ids.foldl bump s).frame other).version := by
  induction ids generalizing s with
  | nil => exact absurd h List.not_mem_nil
  | cons id ids ih =>
    rcases List.mem_cons.mp h with rfl | htail
    · have hfirst : (s.frame other).version < ((s.bump other).frame other).version := by
        rw [frame_bump, if_pos rfl]
        exact Nat.lt_succ_self _
      exact Nat.lt_of_lt_of_le hfirst (version_le_foldl_bump ids _ _)
    · exact Nat.lt_of_le_of_lt (s.version_le_bump id other) (ih (s.bump id) htail)

theorem frame_foldl_bump_of_notMem {ids : List FrameId} (s : FrameStore) {other : FrameId}
    (h : other ∉ ids) : (ids.foldl bump s).frame other = s.frame other := by
  induction ids generalizing s with
  | nil => rfl
  | cons id ids ih =>
    rw [List.mem_cons, not_or] at h
    rw [List.foldl_cons, ih _ h.2, frame_bump, if_neg h.1]

theorem next_foldl_bump (ids : List FrameId) (s : FrameStore) :
    (ids.foldl bump s).next = s.next := by
  induction ids generalizing s with
  | nil => rfl
  | cons id ids ih => rw [List.foldl_cons, ih, next_bump]

theorem contents_foldl_bump (ids : List FrameId) (s : FrameStore) :
    (ids.foldl bump s).contents = s.contents := by
  induction ids generalizing s with
  | nil => rfl
  | cons id ids ih => rw [List.foldl_cons, ih, contents_bump]

end FrameStore

/-! ### Stores through one address space -/

namespace Memory

/-- A frame is behind some page of the address space. -/
def Backs (m : Memory) (id : FrameId) : Prop :=
  ∃ (number : Nat) (p : Page), m.space.pages[number]? = some p ∧ p.frame = id

/-- The memory after stores through its own address space. -/
structure Stored (m m' : Memory) : Prop where
  space : m'.space = m.space
  next : m'.frames.next = m.frames.next
  same_or_newer (id : FrameId) : m'.frames.frame id = m.frames.frame id ∨
    (m.frames.frame id).version < (m'.frames.frame id).version ∧ m.Backs id

namespace Stored

theorem refl (m : Memory) : m.Stored m :=
  ⟨rfl, rfl, fun _ ↦ .inl rfl⟩

theorem backs_iff {m m' : Memory} (h : m.Stored m') (id : FrameId) : m'.Backs id ↔ m.Backs id := by
  rw [Backs, Backs, h.space]

theorem trans {m₁ m₂ m₃ : Memory} (h : m₁.Stored m₂) (h' : m₂.Stored m₃) : m₁.Stored m₃ := by
  refine ⟨h'.space.trans h.space, h'.next.trans h.next, fun id ↦ ?_⟩
  rcases h.same_or_newer id with hsame | ⟨hnew, hback⟩
  · rw [← hsame, ← h.backs_iff id]
    exact h'.same_or_newer id
  · rcases h'.same_or_newer id with hsame' | ⟨hnew', _⟩
    · rw [hsame']
      exact .inr ⟨hnew, hback⟩
    · exact .inr ⟨Nat.lt_trans hnew hnew', hback⟩

theorem evolves {m m' : Memory} (h : m.Stored m') : m.frames.Evolves m'.frames := by
  refine ⟨Nat.le_of_eq h.next.symm, fun id _ ↦ ?_⟩
  rcases h.same_or_newer id with hsame | ⟨hnew, _⟩
  · exact .inl hsame
  · exact .inr hnew

end Stored

/-! ### One piece at a time -/

theorem stored_storePiece (m : Memory) (piece : Piece) :
    m.Stored { m with frames := storePiece m.space m.frames piece } := by
  rw [storePiece]
  cases hpage : m.space.pages[piece.page]? with
  | none => exact Stored.refl m
  | some p =>
    refine ⟨rfl, rfl, fun id ↦ ?_⟩
    simp only [FrameStore.frame_write]
    by_cases h : id = p.frame
    · refine .inr ⟨?_, piece.page, p, hpage, h.symm⟩
      simp [h]
    · exact .inl (if_neg h)

theorem stored_foldl_storePiece (parts : List Piece) (m : Memory) :
    m.Stored { m with frames := parts.foldl (storePiece m.space) m.frames } := by
  induction parts generalizing m with
  | nil => exact Stored.refl m
  | cons piece parts ih => exact (m.stored_storePiece piece).trans (ih _)

/-- Stores change frames behind pages of the space only, and each of these counts them. -/
theorem stored_store (m : Memory) (a : Address) (bytes : List UInt8) :
    m.Stored (m.store a bytes) :=
  m.stored_foldl_storePiece (pieces a bytes)

theorem version_putPiece (space : AddressSpace) (frames : FrameStore) (piece : Piece)
    (id : FrameId) :
    ((putPiece space frames piece).frame id).version = (frames.frame id).version := by
  rw [putPiece]
  cases space.pages[piece.page]? with
  | none => rfl
  | some p =>
    simp only [FrameStore.frame_put]
    by_cases h : id = p.frame
    · simp [h]
    · simp [h]

theorem version_foldl_putPiece (space : AddressSpace) (parts : List Piece) (frames : FrameStore)
    (id : FrameId) :
    ((parts.foldl (putPiece space) frames).frame id).version = (frames.frame id).version := by
  induction parts generalizing frames with
  | nil => rfl
  | cons piece parts ih => rw [List.foldl_cons, ih, version_putPiece]

theorem next_foldl_putPiece (space : AddressSpace) (parts : List Piece) (frames : FrameStore) :
    (parts.foldl (putPiece space) frames).next = frames.next := by
  induction parts generalizing frames with
  | nil => rfl
  | cons piece parts ih =>
    rw [List.foldl_cons, ih, putPiece]
    cases space.pages[piece.page]? with
    | none => rfl
    | some p => rfl

theorem mem_framesOf (space : AddressSpace) (parts : List Piece) (id : FrameId) :
    id ∈ framesOf space parts ↔
      ∃ piece ∈ parts, ∃ p, space.pages[piece.page]? = some p ∧ p.frame = id := by
  simp [framesOf, List.mem_eraseDups, List.mem_filterMap]

theorem frame_foldl_putPiece (space : AddressSpace) (parts : List Piece) (frames : FrameStore)
    {id : FrameId} (h : id ∉ framesOf space parts) :
    (parts.foldl (putPiece space) frames).frame id = frames.frame id := by
  induction parts generalizing frames with
  | nil => rfl
  | cons piece parts ih =>
    have htail : id ∉ framesOf space parts := by
      intro hmem
      obtain ⟨piece', hpiece', p, hp⟩ := (mem_framesOf space parts id).mp hmem
      exact h ((mem_framesOf _ _ _).mpr ⟨piece', List.mem_cons_of_mem _ hpiece', p, hp⟩)
    rw [List.foldl_cons, ih _ htail, putPiece]
    cases hpage : space.pages[piece.page]? with
    | none => rfl
    | some p =>
      have hne : id ≠ p.frame := fun heq ↦
        h ((mem_framesOf _ _ _).mpr ⟨piece, List.mem_cons_self, p, hpage, heq.symm⟩)
      rw [FrameStore.frame_put, if_neg hne]

/-- An indivisible store counts once for every frame in which it changes bytes. -/
theorem stored_storeCell (m : Memory) (a : Address) (bytes : List UInt8) :
    m.Stored (m.storeCell a bytes) := by
  refine ⟨rfl, ?_, fun id ↦ ?_⟩
  · simp only [storeCell, FrameStore.next_foldl_bump, next_foldl_putPiece]
  · by_cases h : id ∈ framesOf m.space (pieces a bytes)
    · obtain ⟨piece, _, p, hpage, hframe⟩ := (mem_framesOf _ _ _).mp h
      refine .inr ⟨?_, piece.page, p, hpage, hframe⟩
      rw [← version_foldl_putPiece m.space (pieces a bytes) m.frames id]
      exact FrameStore.version_lt_foldl_bump _ h
    · refine .inl ?_
      simp only [storeCell]
      rw [FrameStore.frame_foldl_bump_of_notMem _ h, frame_foldl_putPiece _ _ _ h]

/-! ### The checked operations -/

theorem write_eq_ok {m m' : Memory} {a : Address} {bytes : List UInt8} :
    m.write a bytes = .ok m' ↔
      m.check .write a bytes.length = .ok () ∧ m.store a bytes = m' := by
  rw [write]
  cases m.check .write a bytes.length with
  | error fault => simp [bind, Except.bind]
  | ok => simp [bind, Except.bind]

theorem poke_eq_ok {m m' : Memory} {a : Address} {bytes : List UInt8} :
    m.poke a bytes = .ok m' ↔
      m.checkRange .write false a bytes.length = .ok () ∧ m.store a bytes = m' := by
  rw [poke]
  cases m.checkRange .write false a bytes.length with
  | error fault => simp [bind, Except.bind]
  | ok => simp [bind, Except.bind]

theorem read_eq_ok {m : Memory} {a : Address} {count : Nat} {bytes : List UInt8} :
    m.read a count = .ok bytes ↔ m.check .read a count = .ok () ∧ m.bytes a count = bytes := by
  rw [read]
  cases m.check .read a count with
  | error fault => simp [bind, Except.bind]
  | ok => simp [bind, Except.bind]

theorem stored_write {m m' : Memory} {a : Address} {bytes : List UInt8}
    (h : m.write a bytes = .ok m') : m.Stored m' := by
  obtain ⟨_, rfl⟩ := write_eq_ok.mp h
  exact m.stored_store a bytes

theorem stored_poke {m m' : Memory} {a : Address} {bytes : List UInt8}
    (h : m.poke a bytes = .ok m') : m.Stored m' := by
  obtain ⟨_, rfl⟩ := poke_eq_ok.mp h
  exact m.stored_store a bytes

section AtomicUpdate

variable {α : Type} {m m' : Memory} {a : Address} {size : Nat}
  {f : BitVec (8 * size) → BitVec (8 * size) × α} {result : α}

/-- The word that a cell holds. -/
def word (m : Memory) (a : Address) (size : Nat) : BitVec (8 * size) :=
  BitVec.ofNat (8 * size) (LittleEndian.toNat (m.bytes a size))

/-- An indivisible update reads a cell, and stores in it only what differs from its old value. -/
theorem atomicUpdate_eq_ok :
    m.atomicUpdate a size f = .ok (result, m') ↔
      m.check .read a size = .ok () ∧ m.check .write a size = .ok () ∧
      (f (m.word a size)).2 = result ∧
      (if (f (m.word a size)).1 = m.word a size then m
        else m.storeCell a (LittleEndian.ofNat size (f (m.word a size)).1.toNat)) = m' := by
  rw [atomicUpdate]
  cases hread : m.check .read a size with
  | error fault => simp [bind, Except.bind]
  | ok =>
    cases hwrite : m.check .write a size with
    | error fault => simp [bind, Except.bind]
    | ok =>
      by_cases h : (f (m.word a size)).1 = m.word a size
      · simp only [bind, Except.bind, word] at *
        simp [h]
      · simp only [bind, Except.bind, word] at *
        simp [h]

theorem stored_atomicUpdate (h : m.atomicUpdate a size f = .ok (result, m')) : m.Stored m' := by
  obtain ⟨_, _, _, rfl⟩ := atomicUpdate_eq_ok.mp h
  by_cases heq : (f (m.word a size)).1 = m.word a size
  · rw [if_pos heq]
    exact Stored.refl m
  · rw [if_neg heq]
    exact m.stored_storeCell a _

/-- An aligned update that is not refused is an update. -/
theorem atomicUpdate_of_aligned {alignment : Nat}
    (h : m.atomicUpdateAligned a size alignment f = .ok (result, m')) :
    m.atomicUpdate a size f = .ok (result, m') := by
  rw [atomicUpdateAligned] at h
  by_cases haligned : 1 < alignment ∧ a.toNat % alignment ≠ 0
  · simp [haligned] at h
  · rwa [if_neg haligned] at h

end AtomicUpdate

end Memory

end LongMode
