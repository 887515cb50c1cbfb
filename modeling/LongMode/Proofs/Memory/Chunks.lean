import LongMode.Memory.InPlace
import LongMode.Proofs.Memory.Fills
import LongMode.Proofs.Memory.Stamps

/-!
Loads and stores that go in chunks. The chunks of a range that does not wrap are the pieces that a
byte string is cut into (`pieces_eq_chunks`), and each of them lies in one frame (`bytes_eq_slice`).
A range that was checked has no page that is refused when it is looked up again. So a load in
place gets the bytes of the range (`run_read`), and a store in place is the store of the whole
string, or leaves memory as it was (`run_write`).
-/

set_option autoImplicit false
set_option relaxedAutoImplicit false

namespace LongMode

namespace Memory

/-! ### Chunks -/

/-- Bytes that fit in the rest of a page are one piece. -/
theorem pieces_of_le (a : Address) {bytes : List UInt8} (hbytes : bytes ≠ [])
    (hfit : bytes.length ≤ pageSize - a.pageOffset) :
    pieces a bytes = [⟨a.page, a.pageOffset, bytes⟩] := by
  have hlength : 0 < bytes.length := List.length_pos_iff.mpr hbytes
  have hcount : roundUpToPage (a.pageOffset + bytes.length) / pageSize = 1 := by
    simp only [roundUpToPage, pageSize] at *
    omega
  rw [pieces, if_neg (by simpa using hbytes), hcount, cut, cut, List.take_of_length_le hfit]

/-- The address past the rest of a page. -/
theorem page_past (a : Address) (h : a.toNat + (pageSize - a.pageOffset) < addressLimit) :
    (a + BitVec.ofNat 64 (pageSize - a.pageOffset)).page = a.page + 1 ∧
      (a + BitVec.ofNat 64 (pageSize - a.pageOffset)).pageOffset = 0 := by
  rw [Address.page_add_ofNat a h]
  have hsum := a.page_mul_add_pageOffset
  have hoffset := a.pageOffset_lt
  have hpast : a.toNat + (pageSize - a.pageOffset) = (a.page + 1) * pageSize := by
    rw [Nat.succ_mul]
    omega
  constructor
  · rw [hpast, Nat.mul_div_cancel _ (by decide)]
  · rw [Address.pageOffset, Address.toNat_add_ofNat a h, hpast, Nat.mul_mod_left]

/-- Of bytes that do not fit in the rest of a page, those that do are a piece. -/
theorem pieces_of_gt (a : Address) {bytes : List UInt8}
    (hlong : pageSize - a.pageOffset < bytes.length)
    (hend : a.toNat + bytes.length ≤ addressLimit) :
    pieces a bytes =
      ⟨a.page, a.pageOffset, bytes.take (pageSize - a.pageOffset)⟩ ::
        pieces (a + BitVec.ofNat 64 (pageSize - a.pageOffset))
          (bytes.drop (pageSize - a.pageOffset)) := by
  have hoffset := a.pageOffset_lt
  obtain ⟨hpage, hzero⟩ := page_past a (by omega)
  have hcount : roundUpToPage (a.pageOffset + bytes.length) / pageSize =
      roundUpToPage (0 + (bytes.drop (pageSize - a.pageOffset)).length) / pageSize + 1 := by
    rw [List.length_drop]
    simp only [roundUpToPage, pageSize] at *
    omega
  have hbytes : bytes.isEmpty ≠ true := by
    rintro hempty
    rw [List.isEmpty_iff.mp hempty] at hlong
    exact Nat.not_lt_zero _ hlong
  have hrest : (bytes.drop (pageSize - a.pageOffset)).isEmpty ≠ true := by
    rw [Ne, List.isEmpty_iff, List.drop_eq_nil_iff]
    exact Nat.not_le_of_lt hlong
  rw [pieces, if_neg hbytes, hcount, cut, pieces, if_neg hrest, hpage, hzero]

/-- The chunks of a range that does not wrap are the pieces of its bytes. -/
theorem pieces_eq_chunks (a : Address) (bytes : List UInt8)
    (hend : a.toNat + bytes.length ≤ addressLimit) : pieces a bytes = chunks a bytes := by
  fun_induction chunks a bytes with
  | case1 a bytes hempty => rw [pieces, if_pos hempty]
  | case2 a bytes hbytes now ih =>
    have hne : bytes ≠ [] := by simpa using hbytes
    by_cases hfit : bytes.length ≤ pageSize - a.pageOffset
    · have hnow : now = bytes.length := Nat.min_eq_right hfit
      rw [pieces_of_le a hne hfit, hnow, List.take_length, List.drop_length, chunks]
      rfl
    · have hnow : now = pageSize - a.pageOffset := Nat.min_eq_left (by omega)
      rw [pieces_of_gt a (by omega) hend, ← hnow, ih]
      rw [List.length_drop, Address.toNat_add_ofNat a (by omega)]
      omega

/-! ### What a chunk meets -/

/-- Bytes at consecutive addresses, in two parts. -/
theorem bytes_add (m : Memory) (a : Address) (count count' : Nat) :
    m.bytes a (count + count') = m.bytes a count ++ m.bytes (a + BitVec.ofNat 64 count) count' := by
  simp only [bytes, List.range_add, List.map_append, List.map_map, Function.comp_def,
    BitVec.ofNat_add, BitVec.add_assoc]

/-- Bytes that stay in a page are those of its frame. -/
theorem bytes_eq_slice {m : Memory} {a : Address} {p : Page} (hpage : m.page? a = some p)
    {count : Nat} (hfit : count ≤ pageSize - a.pageOffset) :
    m.bytes a count = (m.frames.frame p.frame).slice a.pageOffset count := by
  refine List.map_congr_left fun i hi ↦ ?_
  rw [List.mem_range] at hi
  have hlimit := a.toNat_lt
  have hsum : a.toNat + i < addressLimit := by
    simp only [Address.pageOffset, pageSize, addressLimit] at *
    omega
  have hcell : m.space.cell? (a + BitVec.ofNat 64 i).toNat = some (p.frame, a.pageOffset + i) := by
    rw [a.toNat_add_ofNat hsum, toNat_add_eq, m.space.cell?_of_offset _ (by omega)]
    exact congrArg (Option.map _) hpage
  exact m.byte_eq_contents hcell

/-- What an operation answers, and the memory that it leaves: what is refused leaves it as it
was. -/
def settle {ε α : Type} (m : Memory) : Except ε (α × Memory) → Except ε α × Memory
  | .ok (answer, after) => (.ok answer, after)
  | .error e => (.error e, m)

theorem settle_eq_error_iff {ε α : Type} {m after : Memory} {x : Except ε (α × Memory)} {e : ε} :
    m.settle x = (.error e, after) ↔ after = m ∧ x = .error e := by
  cases x with
  | error e' => simp [settle, and_comm, eq_comm]
  | ok answer => simp [settle]

theorem settle_eq_ok_iff {ε α : Type} {m after : Memory} {x : Except ε (α × Memory)} {v : α} :
    m.settle x = (.ok v, after) ↔ x = .ok (v, after) := by
  cases x with
  | error e => simp [settle]
  | ok answer => simp [settle, Prod.ext_iff]

/-- A page that permits an access is found again. -/
theorem lookUp_of_permits {m : Memory} {access : Access} {a : Address}
    (h : m.permits access a = true) :
    ∃ p, m.page? a = some p ∧ m.lookUp access a.page = .ok p := by
  obtain ⟨p, hpage, hallows⟩ := (permits_eq_true_iff access a).mp h
  refine ⟨p, hpage, ?_⟩
  rw [lookUp, hpage]
  exact if_pos (hallows rfl)

/-- What holds at each address of a range holds where the first chunk begins. -/
theorem holds_first {P : Address → Prop} {a : Address} {bytes : List UInt8}
    (hbytes : ¬bytes.isEmpty = true) (h : ∀ i < bytes.length, P (a + BitVec.ofNat 64 i)) : P a := by
  have hfirst := h 0 (List.length_pos_iff.mpr (by simpa using hbytes))
  rwa [show BitVec.ofNat 64 0 = 0#64 from rfl, BitVec.add_zero] at hfirst

/-- What holds at each address of a range holds at those behind the first chunk. -/
theorem holds_rest {P : Address → Prop} {a : Address} {bytes : List UInt8} {now : Nat}
    (h : ∀ i < bytes.length, P (a + BitVec.ofNat 64 i)) :
    ∀ i < (bytes.drop now).length, P (a + BitVec.ofNat 64 now + BitVec.ofNat 64 i) := by
  intro i hi
  rw [List.length_drop] at hi
  rw [BitVec.add_assoc, ← BitVec.ofNat_add]
  exact h (now + i) (by omega)

/-- Each address of a range that is not refused permits the access. -/
theorem permits_of_check {m : Memory} {access : Access} {a : Address} {count : Nat}
    (h : m.check access a count = .ok ()) :
    ∀ i < count, m.permits access (a + BitVec.ofNat 64 i) = true := by
  intro i hi
  obtain ⟨-, p, hpage, hallows⟩ := page?_of_checkRange h hi
  exact (permits_eq_true_iff _ _).mpr ⟨p, hpage, hallows⟩

end Memory

namespace InPlace

variable {m : Memory}

theorem ends_readChunk {a : Address} (bytes : List UInt8) (h : m.permits .read a = true)
    (hfit : bytes.length ≤ pageSize - a.pageOffset) :
    Ends (readChunk ⟨a.page, a.pageOffset, bytes⟩) m (m.bytes a bytes.length) m := by
  obtain ⟨p, hpage, hlookUp⟩ := Memory.lookUp_of_permits h
  rw [Memory.bytes_eq_slice hpage hfit]
  simp only [readChunk, ends_bind_iff, ends_get_iff, ends_liftM_iff, ends_pure_iff]
  exact ⟨m, m, ⟨rfl, rfl⟩, p, m, ⟨hlookUp, rfl⟩, m, m, ⟨rfl, rfl⟩, rfl, rfl⟩

/-- The chunks of a buffer are filled with the bytes of a range that can be loaded. -/
theorem exists_ends_mapM_readChunk (a : Address) (bytes : List UInt8)
    (h : ∀ i < bytes.length, m.permits .read (a + BitVec.ofNat 64 i) = true) :
    ∃ parts, Ends ((Memory.chunks a bytes).mapM readChunk) m parts m ∧
      parts.flatten = m.bytes a bytes.length := by
  fun_induction Memory.chunks a bytes with
  | case1 a bytes hempty =>
    rw [List.isEmpty_iff] at hempty
    rw [hempty]
    exact ⟨[], rfl, rfl⟩
  | case2 a bytes hbytes now ih =>
    have hnow : now ≤ bytes.length := Nat.min_le_right _ _
    have hlength : (bytes.take now).length = now := List.length_take_of_le hnow
    have hreadable : m.permits .read a = true :=
      Memory.holds_first (P := fun a ↦ m.permits .read a = true) hbytes h
    have hfirst := ends_readChunk (bytes.take now) hreadable (by
      rw [hlength]
      exact Nat.min_le_left _ _)
    obtain ⟨parts, hrest, hparts⟩ :=
      ih (Memory.holds_rest (P := fun a ↦ m.permits .read a = true) h)
    refine ⟨m.bytes a now :: parts, ?_, ?_⟩
    · rw [hlength] at hfirst
      rw [List.mapM_cons, Ends, hfirst.run_bind, hrest.run_bind]
      rfl
    · rw [List.flatten_cons, hparts, ← Memory.bytes_add, List.length_drop,
        Nat.add_sub_cancel' hnow]

/-- A load in place gets what a load gets, and changes nothing. -/
theorem run_read (m : Memory) (a : Address) (count : Nat) :
    (read a count).run.run m = (m.read a count, m) := by
  rw [read, (ends_get m).run_bind, Memory.read]
  cases hcheck : m.check .read a count with
  | error fault => exact run_liftM_bind_of_error rfl
  | ok =>
    obtain ⟨parts, hparts, hflatten⟩ := exists_ends_mapM_readChunk a (List.replicate count 0)
      (by rw [List.length_replicate]; exact Memory.permits_of_check hcheck)
    rw [List.length_replicate] at hflatten
    rw [(ends_liftM rfl).run_bind, hparts.run_bind, hflatten]
    rfl

theorem ends_writeChunk {a : Address} (bytes : List UInt8) (h : m.permits .write a = true) :
    Ends (writeChunk ⟨a.page, a.pageOffset, bytes⟩) m ()
      { m with frames := Memory.storePiece m.space m.frames ⟨a.page, a.pageOffset, bytes⟩ } := by
  obtain ⟨p, hpage, hlookUp⟩ := Memory.lookUp_of_permits h
  have hpiece (frames : FrameStore) :
      Memory.storePiece m.space frames ⟨a.page, a.pageOffset, bytes⟩ =
        frames.write p.frame a.pageOffset bytes := by
    rw [Memory.page?] at hpage
    rw [Memory.storePiece, hpage]
  rw [hpiece]
  simp only [writeChunk, modifyFrames, ends_bind_iff, ends_get_iff, ends_liftM_iff,
    ends_modify_iff]
  exact ⟨m, m, ⟨rfl, rfl⟩, p, m, ⟨hlookUp, rfl⟩, rfl⟩

/-- The chunks of a string are stored one after the other, if each of them is that begins at an
address of the range. -/
theorem ends_forM_chunks {body : Memory.Piece → InPlace MemoryFault PUnit} {m : Memory}
    {Q : Address → Prop}
    (hbody : ∀ (m' : Memory) (a : Address) (bytes : List UInt8), m'.space = m.space → Q a →
      Ends (body ⟨a.page, a.pageOffset, bytes⟩) m' ()
        { m' with frames := Memory.storePiece m'.space m'.frames ⟨a.page, a.pageOffset, bytes⟩ })
    (a : Address) (bytes : List UInt8) (h : ∀ i < bytes.length, Q (a + BitVec.ofNat 64 i))
    (m' : Memory) (hspace : m'.space = m.space) :
    Ends ((Memory.chunks a bytes).forM body) m' ()
      { m' with
        frames := (Memory.chunks a bytes).foldl (Memory.storePiece m'.space) m'.frames } := by
  fun_induction Memory.chunks a bytes generalizing m' with
  | case1 a bytes hempty => rfl
  | case2 a bytes hbytes now ih =>
    have hfirst := hbody m' a (bytes.take now) hspace (Memory.holds_first hbytes h)
    rw [Ends]
    exact hfirst.run_bind.trans (ih (Memory.holds_rest h) { m' with frames := _ } hspace)

/-- The chunks of a string are stored one after the other in a range that can be stored to. -/
theorem ends_forM_writeChunk (m : Memory) (a : Address) (bytes : List UInt8)
    (h : ∀ i < bytes.length, m.permits .write (a + BitVec.ofNat 64 i) = true) :
    Ends ((Memory.chunks a bytes).forM writeChunk) m ()
      { m with frames := (Memory.chunks a bytes).foldl (Memory.storePiece m.space) m.frames } :=
  ends_forM_chunks (Q := fun a ↦ m.permits .write a = true)
    (fun m' a bytes hspace hstores ↦ ends_writeChunk bytes (by
      rwa [Memory.permits, Memory.page?, hspace]))
    a bytes h m rfl

/-- A store in place stores the whole string, or is refused and leaves memory as it was. -/
theorem run_write (m : Memory) (a : Address) (bytes : List UInt8) :
    (write a bytes).run.run m = m.settle ((m.write a bytes).map ((), ·)) := by
  rw [write, (ends_get m).run_bind, Memory.write]
  cases hcheck : m.check .write a bytes.length with
  | error fault => exact run_liftM_bind_of_error rfl
  | ok =>
    have hend : a.toNat + bytes.length ≤ addressLimit := by
      have hlimit := a.toNat_lt
      rcases (m.check_eq_ok .write a bytes.length).mp hcheck with hzero | ⟨hend, -⟩
      · omega
      · exact hend
    rw [(ends_liftM rfl).run_bind, ends_forM_writeChunk m a bytes (Memory.permits_of_check hcheck),
      ← Memory.pieces_eq_chunks a bytes hend]
    rfl

end InPlace

end LongMode
