import LongMode.Proofs.Memory.Chunks

/-!
Indivisible updates in place. A cell of no more than a page lies in one page or ends one and begins
the next, and the two pages may have one frame. What an update loads is in each case the bytes of
the cell (`bytes_of_straddles`), and what it stores is in each case one store of the new bytes
(`storeCell_of_le`, `storeCell_of_straddles`) that counts once for each frame that the cell touches
(`frame_storeCell`).

So an update in place is `Memory.atomicUpdate` (`run_update`), and with that a load, a computation
and a store, of which the versions do not move if the cell keeps its value
(`update_refines_load_and_store`).
-/

set_option autoImplicit false
set_option relaxedAutoImplicit false

namespace LongMode

/-- A list of which the repetitions were dropped has none. -/
theorem nodup_eraseDups {α : Type} [BEq α] [LawfulBEq α] (xs : List α) : xs.eraseDups.Nodup := by
  induction hlength : xs.length using Nat.strongRecOn generalizing xs with
  | ind length ih =>
    cases xs with
    | nil =>
      rw [List.eraseDups_nil]
      exact List.nodup_nil
    | cons x xs =>
      have hshorter : (xs.filter fun y ↦ !(y == x)).length < length := by
        rw [← hlength, List.length_cons]
        exact Nat.lt_succ_of_le (List.length_filter_le _ _)
      rw [List.eraseDups_cons, List.nodup_cons]
      exact ⟨by simp [List.mem_eraseDups], ih _ hshorter _ rfl⟩

/-- Each mention of a frame counts. -/
theorem FrameStore.version_foldl_bump (frames : FrameStore) (ids : List FrameId) (id : FrameId) :
    ((ids.foldl FrameStore.bump frames).frame id).version =
      (frames.frame id).version + ids.count id := by
  induction ids generalizing frames with
  | nil => rfl
  | cons other ids ih =>
    rw [List.foldl_cons, ih, frame_bump, List.count_cons]
    by_cases hid : id = other
    · rw [if_pos hid, if_pos (beq_iff_eq.mpr hid.symm), hid, Nat.add_right_comm]
      rfl
    · rw [if_neg hid, if_neg (mt beq_iff_eq.mp (Ne.symm hid)), Nat.add_zero]

namespace Memory

variable {m : Memory} {a : Address} {size : Nat} {bytes : List UInt8} {p q : Page}

/-! ### The frames of a range -/

/-- Some byte of a range is in a frame. -/
def Touches (m : Memory) (a : Address) (size : Nat) (id : FrameId) : Prop :=
  ∃ i < size, ∃ p, m.page? (a + BitVec.ofNat 64 i) = some p ∧ p.frame = id

theorem touches_add {count count' : Nat} {id : FrameId} :
    m.Touches a (count + count') id ↔
      m.Touches a count id ∨ m.Touches (a + BitVec.ofNat 64 count) count' id := by
  constructor
  · rintro ⟨i, hi, hpage⟩
    rcases Nat.lt_or_ge i count with hlt | hge
    · exact .inl ⟨i, hlt, hpage⟩
    · refine .inr ⟨i - count, by omega, ?_⟩
      rwa [BitVec.add_assoc, ← BitVec.ofNat_add, Nat.add_sub_cancel' hge]
  · rintro (⟨i, hi, hpage⟩ | ⟨i, hi, hpage⟩)
    · exact ⟨i, Nat.lt_add_right _ hi, hpage⟩
    · rw [BitVec.add_assoc, ← BitVec.ofNat_add] at hpage
      exact ⟨count + i, Nat.add_lt_add_left hi _, hpage⟩

/-- Bytes that stay in a page are in its frame. -/
theorem touches_of_le {id : FrameId} (hpos : 0 < size) (hfit : size ≤ pageSize - a.pageOffset) :
    m.Touches a size id ↔ ∃ p, m.page? a = some p ∧ p.frame = id := by
  have hsame (i : Nat) (hi : i < size) : m.page? (a + BitVec.ofNat 64 i) = m.page? a := by
    rw [page?, page?, a.page_add_of_lt (Nat.lt_of_lt_of_le hi hfit)]
  constructor
  · rintro ⟨i, hi, hpage⟩
    rwa [hsame i hi] at hpage
  · intro hpage
    exact ⟨0, hpos, by rwa [hsame 0 hpos]⟩

/-- The frames that a byte string falls into are those that its range touches. -/
theorem mem_framesOf_pieces {id : FrameId} (hstop : a.toNat + bytes.length ≤ addressLimit) :
    id ∈ framesOf m.space (pieces a bytes) ↔ m.Touches a bytes.length id := by
  rw [mem_framesOf, pieces_eq_chunks a bytes hstop]
  clear hstop
  fun_induction chunks a bytes with
  | case1 a bytes hempty =>
    rw [List.isEmpty_iff.mp hempty]
    simp [Touches]
  | case2 a bytes hbytes now ih =>
    have hnow : now ≤ bytes.length := Nat.min_le_right _ _
    have hpos : 0 < now := by
      have hoffset := a.pageOffset_lt
      have hlength : 0 < bytes.length := List.length_pos_iff.mpr (by simpa using hbytes)
      exact Nat.lt_min.mpr ⟨Nat.sub_pos_of_lt hoffset, hlength⟩
    have hfirst : m.Touches a now id ↔ _ := touches_of_le hpos (Nat.min_le_left _ _)
    rw [List.length_drop] at ih
    rw [← Nat.add_sub_cancel' hnow, touches_add, hfirst, ← ih]
    simp only [List.mem_cons, exists_eq_or_imp]
    exact Iff.rfl

/-! ### Cells -/

/-- A cell that begins in the page `p`, does not end in it, and ends in the next page, `q`. -/
structure Straddles (m : Memory) (a : Address) (size : Nat) (p q : Page) : Prop where
  /-- The page of the first byte. -/
  first : m.page? a = some p
  /-- The page of the first byte that the other page does not hold. -/
  second : m.page? (a + BitVec.ofNat 64 (pageSize - a.pageOffset)) = some q
  /-- The cell goes on behind its first page. -/
  long : pageSize - a.pageOffset < size
  /-- The second page holds the rest. -/
  short : size ≤ pageSize
  /-- The cell does not wrap. -/
  stop : a.toNat + size ≤ addressLimit

namespace Straddles

theorem page_second (h : m.Straddles a size p q) :
    (a + BitVec.ofNat 64 (pageSize - a.pageOffset)).page = a.page + 1 ∧
      (a + BitVec.ofNat 64 (pageSize - a.pageOffset)).pageOffset = 0 :=
  page_past a (Nat.lt_of_lt_of_le (Nat.add_lt_add_left h.long _) h.stop)

/-- The first page is not the last one of memory, and the page that follows it holds the rest. -/
theorem page_following (h : m.Straddles a size p q) :
    (a.pageFloor + BitVec.ofNat 64 pageSize).page =
      (a + BitVec.ofNat 64 (pageSize - a.pageOffset)).page := by
  have hsum := a.page_mul_add_pageOffset
  have hoffset := a.pageOffset_lt
  have hlong := h.long
  have hstop := h.stop
  rw [h.page_second.1, page_next (by rw [Nat.succ_mul]; omega)]

end Straddles

/-- What an update of a cell over two pages loads is the cell. -/
theorem bytes_of_straddles (h : m.Straddles a size p q) :
    m.bytes a size =
      (m.frames.frame p.frame).slice a.pageOffset (pageSize - a.pageOffset) ++
        (m.frames.frame q.frame).slice 0 (size - (pageSize - a.pageOffset)) := by
  have hzero := h.page_second.2
  have hfit : size - (pageSize - a.pageOffset) ≤
      pageSize - (a + BitVec.ofNat 64 (pageSize - a.pageOffset)).pageOffset := by
    rw [hzero]
    exact Nat.le_trans (Nat.sub_le _ _) h.short
  have hrest := bytes_eq_slice h.second hfit
  rw [hzero] at hrest
  have hsplit := m.bytes_add a (pageSize - a.pageOffset) (size - (pageSize - a.pageOffset))
  rw [Nat.add_sub_cancel' (Nat.le_of_lt h.long)] at hsplit
  rw [hsplit, bytes_eq_slice h.first (Nat.le_refl _), hrest]

/-- What an update of a cell in one page stores. -/
theorem storeCell_of_le (hpage : m.page? a = some p) (hbytes : bytes ≠ [])
    (hfit : bytes.length ≤ pageSize - a.pageOffset) :
    m.storeCell a bytes =
      { m with frames := (m.frames.put p.frame a.pageOffset bytes).bump p.frame } := by
  rw [page?] at hpage
  rw [storeCell, pieces_of_le a hbytes hfit]
  simp only [framesOf, putPiece, List.foldl_cons, List.foldl_nil, List.filterMap_cons,
    List.filterMap_nil, hpage, Option.map_some, List.eraseDups_cons, List.filter_nil,
    List.eraseDups_nil]

/-- What an update of a cell over two pages stores, where each of their frames counts once. -/
theorem storeCell_of_straddles (h : m.Straddles a bytes.length p q) :
    m.storeCell a bytes =
      { m with
        frames := [p.frame, q.frame].eraseDups.foldl FrameStore.bump
          ((m.frames.put p.frame a.pageOffset (bytes.take (pageSize - a.pageOffset))).put q.frame
            0 (bytes.drop (pageSize - a.pageOffset))) } := by
  obtain ⟨hpage, hzero⟩ := h.page_second
  have hfirst := h.first
  have hsecond := h.second
  have hrest : bytes.drop (pageSize - a.pageOffset) ≠ [] := by
    rw [Ne, List.drop_eq_nil_iff]
    exact Nat.not_le_of_lt h.long
  have hfit : (bytes.drop (pageSize - a.pageOffset)).length ≤
      pageSize - (a + BitVec.ofNat 64 (pageSize - a.pageOffset)).pageOffset := by
    rw [hzero, List.length_drop]
    exact Nat.le_trans (Nat.sub_le _ _) h.short
  rw [page?] at hfirst hsecond
  rw [storeCell, pieces_of_gt a h.long h.stop, pieces_of_le _ hrest hfit, hzero]
  simp only [framesOf, putPiece, List.foldl_cons, List.foldl_nil, List.filterMap_cons,
    List.filterMap_nil, hfirst, hsecond, Option.map_some]

/-- A store to a cell counts once for each frame that it touches, and leaves the others alone. -/
theorem frame_storeCell (m : Memory) (a : Address) (bytes : List UInt8)
    (hstop : a.toNat + bytes.length ≤ addressLimit) (id : FrameId) :
    (m.Touches a bytes.length id →
      ((m.storeCell a bytes).frames.frame id).version = (m.frames.frame id).version + 1) ∧
      (¬m.Touches a bytes.length id →
        (m.storeCell a bytes).frames.frame id = m.frames.frame id) := by
  rw [← mem_framesOf_pieces hstop]
  constructor
  · intro hmem
    rw [storeCell, FrameStore.version_foldl_bump, version_foldl_putPiece]
    exact congrArg _ ((nodup_eraseDups _).count.trans (if_pos hmem))
  · intro hnot
    simp only [storeCell]
    rw [FrameStore.frame_foldl_bump_of_notMem _ hnot, frame_foldl_putPiece _ _ _ hnot]

/-- A cell that can be stored to is in one page, or in two. -/
theorem exists_page_or_straddles (hpos : 0 < size) (hsize : size ≤ pageSize)
    (hcheck : m.check .write a size = .ok ()) :
    ∃ p, m.page? a = some p ∧ m.lookUp .write a.page = .ok p ∧
      (size ≤ pageSize - a.pageOffset ∨
        ∃ q, m.Straddles a size p q ∧
          m.lookUp .write (a.pageFloor + BitVec.ofNat 64 pageSize).page = .ok q) := by
  have hpermits := permits_of_check hcheck
  obtain ⟨p, hpage, hlookUp⟩ := lookUp_of_permits (a := a) (by simpa using hpermits 0 hpos)
  refine ⟨p, hpage, hlookUp, (Nat.lt_or_ge (pageSize - a.pageOffset) size).symm.imp_right ?_⟩
  intro hlong
  obtain ⟨q, hsecond, hlookUpNext⟩ := lookUp_of_permits (hpermits _ hlong)
  have hstop : a.toNat + size ≤ addressLimit := by
    rcases (m.check_eq_ok .write a size).mp hcheck with hzero | ⟨hstop, -⟩
    · omega
    · exact hstop
  have hstraddles : m.Straddles a size p q := ⟨hpage, hsecond, hlong, hsize, hstop⟩
  exact ⟨q, hstraddles, by rw [hstraddles.page_following, hlookUpNext]⟩

end Memory

namespace InPlace

open Memory

variable {α : Type} {m : Memory} {a : Address} {size : Nat}
  {f : BitVec (8 * size) → BitVec (8 * size) × α}

/-! ### The three ways -/

/-- What an update leaves of a memory: the new word in the cell, if that differs from the old. -/
def updated (m : Memory) (a : Address) (size : Nat) (new : BitVec (8 * size)) : Memory :=
  if new = m.word a size then m else m.storeCell a (LittleEndian.ofNat size new.toNat)

/-- An exchange that loads the bytes of a cell, and stores as the cell is stored to, updates it. -/
theorem ends_exchange {bytes : List UInt8} {put : List UInt8 → FrameStore → FrameStore}
    (hbytes : m.bytes a size = bytes)
    (hput : ∀ new : List UInt8, new.length = size →
      m.storeCell a new = { m with frames := put new m.frames }) :
    Ends (exchange f bytes put) m (f (m.word a size)).2
      (updated m a size (f (m.word a size)).1) := by
  have hword : BitVec.ofNat (8 * size) (LittleEndian.toNat bytes) = m.word a size := by
    rw [← hbytes, word]
  rw [exchange, hword, updated]
  by_cases hsame : (f (m.word a size)).1 = m.word a size
  · simp only [hsame, ne_eq, not_true, if_false, if_true]
    exact ends_pure_iff.mpr ⟨rfl, rfl⟩
  · simp only [hsame, ne_eq, not_false_eq_true, if_true, if_false,
      hput _ (LittleEndian.length_ofNat size _)]
    exact ends_bind_iff.mpr ⟨(), _, rfl, rfl⟩

theorem ends_updateWithin {p : Page} (hpage : m.page? a = some p) (hpos : 0 < size)
    (hfit : size ≤ pageSize - a.pageOffset) :
    Ends (updateWithin f p.frame a.pageOffset) m (f (m.word a size)).2
      (updated m a size (f (m.word a size)).1) := by
  refine ends_bind_iff.mpr ⟨m, m, rfl, ends_exchange (bytes_eq_slice hpage hfit) ?_⟩
  intro new hlength
  exact storeCell_of_le hpage (List.length_pos_iff.mp (hlength ▸ hpos)) (hlength ▸ hfit)

theorem ends_updateFolded {p q : Page} (h : m.Straddles a size p q) (hframe : p.frame = q.frame) :
    Ends (updateFolded f p.frame a.pageOffset (pageSize - a.pageOffset)) m
      (f (m.word a size)).2 (updated m a size (f (m.word a size)).1) := by
  have hbytes := bytes_of_straddles h
  rw [← hframe] at hbytes
  refine ends_bind_iff.mpr ⟨m, m, rfl, ends_exchange hbytes ?_⟩
  rintro new rfl
  have honce : [p.frame, p.frame].eraseDups = [p.frame] := by simp [List.eraseDups_cons]
  rw [storeCell_of_straddles h, ← hframe, honce]
  rfl

theorem ends_updateAcross {p q : Page} (h : m.Straddles a size p q) (hframe : p.frame ≠ q.frame) :
    Ends (updateAcross f p.frame q.frame a.pageOffset (pageSize - a.pageOffset)) m
      (f (m.word a size)).2 (updated m a size (f (m.word a size)).1) := by
  refine ends_bind_iff.mpr ⟨m, m, rfl, ends_exchange (bytes_of_straddles h) ?_⟩
  rintro new rfl
  have hboth : [p.frame, q.frame].eraseDups = [p.frame, q.frame] := by
    simp [List.eraseDups_cons, hframe.symm]
  rw [storeCell_of_straddles h, hboth]
  rfl

/-! ### Updates -/

/-- A cell that can be loaded and stored to is updated, whichever way it takes. -/
theorem ends_update (hpos : 0 < size) (hsize : size ≤ pageSize)
    (hread : m.check .read a size = .ok ()) (hwrite : m.check .write a size = .ok ()) :
    Ends (update f a) m (f (m.word a size)).2 (updated m a size (f (m.word a size)).1) := by
  obtain ⟨p, hpage, hlookUp, hcases⟩ := exists_page_or_straddles hpos hsize hwrite
  rw [update, Ends, (ends_get m).run_bind, (ends_liftM hread).run_bind, (ends_get m).run_bind,
    (ends_liftM hwrite).run_bind, (ends_get m).run_bind, (ends_liftM hlookUp).run_bind]
  rcases hcases with hfit | ⟨q, hstraddles, hnext⟩
  · have hhead : min (pageSize - a.pageOffset) size = size := Nat.min_eq_right hfit
    rw [if_pos hhead]
    exact ends_updateWithin hpage hpos hfit
  · have hhead : min (pageSize - a.pageOffset) size = pageSize - a.pageOffset :=
      Nat.min_eq_left (Nat.le_of_lt hstraddles.long)
    rw [hhead, if_neg (Nat.ne_of_lt hstraddles.long), (ends_get m).run_bind,
      (ends_liftM hnext).run_bind]
    by_cases hframe : p.frame = q.frame
    · rw [if_pos hframe]
      exact ends_updateFolded hstraddles hframe
    · rw [if_neg hframe]
      exact ends_updateAcross hstraddles hframe

/-- An update in place is an indivisible update; if it is refused, memory is as it was. -/
theorem run_update (hpos : 0 < size) (hsize : size ≤ pageSize) (m : Memory) (a : Address)
    (f : BitVec (8 * size) → BitVec (8 * size) × α) :
    (update f a).run.run m = m.settle (m.atomicUpdate a size f) := by
  cases hread : m.check .read a size with
  | error fault =>
    rw [update, (ends_get m).run_bind, run_liftM_bind_of_error hread, atomicUpdate, hread]
    rfl
  | ok =>
    cases hwrite : m.check .write a size with
    | error fault =>
      rw [update, (ends_get m).run_bind, (ends_liftM hread).run_bind, (ends_get m).run_bind,
        run_liftM_bind_of_error hwrite, atomicUpdate, hread, hwrite]
      rfl
    | ok =>
      have hupdate : m.atomicUpdate a size f = .ok _ :=
        atomicUpdate_eq_ok.mpr ⟨hread, hwrite, rfl, rfl⟩
      rw [hupdate]
      exact ends_update hpos hsize hread hwrite

/-- Of an aligned update the alignment is checked before anything else. -/
theorem run_updateAligned (m : Memory) (a : Address) (alignment : Nat)
    (f : BitVec (8 * size) → BitVec (8 * size) × α) :
    (updateAligned f a alignment).run.run m =
      if 1 < alignment ∧ ¬alignment ∣ a.toNat then (.error (.misaligned a alignment), m)
      else (update f a).run.run m := by
  simp only [updateAligned, Nat.dvd_iff_mod_eq_zero]
  split <;> rfl

/-! ### Loads and stores of a word -/

theorem run_readWord (m : Memory) (a : Address) (size : Nat) :
    (readWord a size).run.run m = ((m.check .read a size).map fun _ ↦ m.word a size, m) := by
  rw [readWord]
  cases hcheck : m.check .read a size with
  | error fault =>
    refine run_bind_of_error ?_
    rw [run_read, Memory.read, hcheck]
    rfl
  | ok =>
    have hread : Ends (read a size) m (m.bytes a size) m :=
      (run_read m a size).trans (congrArg (·, m) (read_eq_ok.mpr ⟨hcheck, rfl⟩))
    exact hread.run_bind

theorem run_writeWord (m : Memory) (a : Address) (size : Nat) (value : BitVec (8 * size)) :
    (writeWord a size value).run.run m = m.settle ((m.check .write a size).map fun _ ↦
      ((), m.store a (LittleEndian.ofNat size value.toNat))) := by
  rw [writeWord, run_write, Memory.write, LittleEndian.length_ofNat]
  cases m.check .write a size <;> rfl

/-! ### Updates as loads and stores -/

/-- What an update leaves behind: the bytes that a store of the new word leaves, and one more store
to each frame of the cell if the word is a new one. -/
theorem updated_spec (hread : m.check .read a size = .ok ()) (hpos : 0 < size)
    (new : BitVec (8 * size)) :
    (updated m a size new).space = m.space ∧
      (updated m a size new).frames.contents =
        (m.store a (LittleEndian.ofNat size new.toNat)).frames.contents ∧
      ∀ id,
        (new ≠ m.word a size ∧ m.Touches a size id →
          ((updated m a size new).frames.frame id).version = (m.frames.frame id).version + 1) ∧
        (¬(new ≠ m.word a size ∧ m.Touches a size id) →
          (updated m a size new).frames.frame id = m.frames.frame id) := by
  have hstop : a.toNat + size ≤ addressLimit :=
    (((m.check_eq_ok .read a size).mp hread).resolve_left (Nat.ne_of_gt hpos)).1
  rw [contents_store, updated]
  by_cases hsame : new = m.word a size
  · rw [if_pos hsame, hsame, m.ofNat_word, m.assign_bytes_self a (.inr hstop)]
    exact ⟨rfl, rfl, fun id ↦ ⟨fun h ↦ absurd rfl h.1, fun _ ↦ rfl⟩⟩
  · have hframe := m.frame_storeCell a (LittleEndian.ofNat size new.toNat)
      (by rwa [LittleEndian.length_ofNat])
    rw [LittleEndian.length_ofNat] at hframe
    rw [if_neg hsame]
    refine ⟨rfl, m.contents_storeCell a _, fun id ↦ ⟨fun h ↦ (hframe id).1 h.2, fun h ↦ ?_⟩⟩
    exact (hframe id).2 fun htouches ↦ h ⟨hsame, htouches⟩

/-- An update in place is a load, a computation and a store. It is refused with what a check for
reading answers, and then with what a check for writing answers, and leaves memory as it was.
Otherwise the computation gets the word that a load gets, the update answers with its second
component, and the bytes of all frames are those that a store of its first component leaves; the
version of a frame moves, by one, if the cell touches it and the word is a new one, and nothing else
changes. An aligned update is refused if its alignment is above one and does not divide the address,
and is an update otherwise. -/
theorem update_refines_load_and_store (hpos : 0 < size) (hsize : size ≤ pageSize) (m : Memory)
    (a : Address) (f : BitVec (8 * size) → BitVec (8 * size) × α) (alignment : Nat) :
    (∀ fault, m.check .read a size = .error fault →
        (update f a).run.run m = (.error fault, m)) ∧
      (∀ fault, m.check .read a size = .ok () → m.check .write a size = .error fault →
        (update f a).run.run m = (.error fault, m)) ∧
      (m.check .read a size = .ok () → m.check .write a size = .ok () →
        ∃ old stored after,
          (readWord a size).run.run m = (.ok old, m) ∧
          (writeWord a size (f old).1).run.run m = (.ok (), stored) ∧
          (update f a).run.run m = (.ok (f old).2, after) ∧
          after.space = m.space ∧
          after.frames.contents = stored.frames.contents ∧
          ∀ id,
            ((f old).1 ≠ old ∧ m.Touches a size id →
              (after.frames.frame id).version = (m.frames.frame id).version + 1) ∧
            (¬((f old).1 ≠ old ∧ m.Touches a size id) →
              after.frames.frame id = m.frames.frame id)) ∧
      (updateAligned f a alignment).run.run m =
        (if 1 < alignment ∧ ¬alignment ∣ a.toNat then (.error (.misaligned a alignment), m)
          else (update f a).run.run m) ∧
      (updateAligned f a alignment).run.run m =
        m.settle (m.atomicUpdateAligned a size alignment f) := by
  have hrun := run_update hpos hsize m a f
  refine ⟨fun fault hread ↦ ?_, fun fault hread hwrite ↦ ?_, fun hread hwrite ↦ ?_,
    run_updateAligned m a alignment f, ?_⟩
  · rw [hrun, atomicUpdate, hread]
    rfl
  · rw [hrun, atomicUpdate, hread, hwrite]
    rfl
  · obtain ⟨hspace, hcontents, hframes⟩ := updated_spec hread hpos (f (m.word a size)).1
    refine ⟨m.word a size, _, _, ?_, ?_, ends_update hpos hsize hread hwrite, hspace, hcontents,
      hframes⟩
    · rw [run_readWord, hread]
      rfl
    · rw [run_writeWord, hwrite]
      rfl
  · rw [updateAligned, atomicUpdateAligned]
    split
    · rfl
    · exact hrun

/-- One frame at two neighbouring pages. -/
def foldedPages : Memory :=
  ((World.start fun _ ↦ {}).after
    [.share 0x1000,
      .request 0 (.map 0x1000 0x1000 .readWrite (.shared 0)),
      .request 0 (.map 0x2000 0x1000 .readWrite (.shared 0)),
      .request 0 (.poke 0x1ffe [1, 2, 3, 4])]).memory 0

/-- A word that ends the first of these pages and begins the second is doubled. The frame counts
one store. -/
theorem update_foldedPages :
    0 < 4 ∧ 4 ≤ pageSize ∧
      ∃ after : Memory,
        (update (fun old : BitVec (8 * 4) ↦ (old + old, old)) 0x1ffe).run.run foldedPages =
          (.ok 0x04030201, after) ∧
        (after.frames.frame 1).version = (foldedPages.frames.frame 1).version + 1 := by
  have hpos : 0 < 4 := by decide
  have hsize : 4 ≤ pageSize := by decide
  obtain ⟨old, stored, after, hload, -, hupdate, -, -, hframes⟩ :=
    (update_refines_load_and_store hpos hsize foldedPages 0x1ffe
      (fun old : BitVec (8 * 4) ↦ (old + old, old)) 1).2.2.1 (by decide +kernel) (by decide +kernel)
  have hold : old = 0x04030201 := by
    have hword : foldedPages.word 0x1ffe 4 = 0x04030201 := by decide +kernel
    rw [run_readWord, hword, show foldedPages.check .read 0x1ffe 4 = .ok () by decide +kernel]
      at hload
    exact (Except.ok.inj (Prod.mk.inj hload).1).symm
  subst hold
  refine ⟨hpos, hsize, after, hupdate, (hframes 1).1 ⟨by decide, 0, by decide, ?_⟩⟩
  exact ⟨⟨⟨.readWrite, .shared, none⟩, 1⟩, by decide +kernel, rfl⟩

end InPlace

end LongMode
