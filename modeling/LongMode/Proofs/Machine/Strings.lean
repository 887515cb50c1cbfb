import LongMode.Machine.Strings
import LongMode.Proofs.Machine.Discipline
import LongMode.Proofs.Memory.Fills

/-!
String instructions commit. A repeated move or store is the one case in which an instruction stores
many times: it checks the whole of both ranges first, and what it then loads and stores are parts of
them (`check_of_checkSpan`, `Memory.check_of_subrange`). Stores leave the page table alone, so none
of the later accesses can be refused, and the loops do what they are to do (`exec_moveElements`,
`exec_moveChunks`, `completes_fillChunks`).
-/

set_option autoImplicit false
set_option relaxedAutoImplicit false

namespace LongMode.Exec

variable {α β : Type}

/-! ### Computations that complete -/

/-- Begun on a machine it does not fault, and it changes memory by stores that it records. -/
def Completes (m : Machine) (c : Exec α) : Prop :=
  ∃ v m', c.exec m = (.ok v, m') ∧ m.Follows m'

theorem Completes.commitsAt {m : Machine} {c : Exec α} (h : Completes m c) : CommitsAt m c := by
  obtain ⟨v, m', hexec, hfollows⟩ := h
  refine ⟨?_, fun e he ↦ ?_⟩
  · rw [hexec]
    exact hfollows
  · rw [hexec] at he
    exact nomatch he

theorem Completes.pure (m : Machine) (v : α) : Completes m (Pure.pure v : Exec α) :=
  ⟨v, m, rfl, .refl m⟩

/-- What comes second is begun on a machine with the same page table. -/
theorem Completes.bind {m : Machine} {c : Exec α} {f : α → Exec β} (hc : Completes m c)
    (hf : ∀ v m', m'.memory.space = m.memory.space → Completes m' (f v)) :
    Completes m (c >>= f) := by
  obtain ⟨v, m', hexec, hfollows⟩ := hc
  obtain ⟨v', m'', hexec', hfollows'⟩ := hf v m' hfollows.stored.space
  refine ⟨v', m'', ?_, hfollows.trans hfollows'⟩
  rw [exec_bind_of_ok hexec, hexec']

theorem exec_loadBytes {m : Machine} {a : Address} {count : Nat}
    (hcheck : m.memory.check .read a count = .ok ()) :
    (loadBytes a count).exec m = (.ok (m.memory.bytes a count), m) := by
  have hread : m.memory.read a count = .ok (m.memory.bytes a count) :=
    Memory.read_eq_ok.mpr ⟨hcheck, rfl⟩
  rw [loadBytes, exec_bind_of_ok (exec_memory m), hread]
  rfl

theorem exec_load {m : Machine} {a : Address} {w : Width}
    (hcheck : m.memory.check .read a w.bytes = .ok ()) :
    (load a w).exec m = (.ok (m.memory.word a w.bytes), m) :=
  exec_bind_of_ok (exec_loadBytes hcheck) _

theorem exec_storeBytes {m : Machine} {a : Address} {bytes : List UInt8}
    (hcheck : m.memory.check .write a bytes.length = .ok ()) :
    (storeBytes a bytes).exec m =
      (.ok (), { m with
        memory := m.memory.store a bytes
        writes := m.writes.push ⟨a, bytes⟩ }) := by
  have hwrite : m.memory.write a bytes = .ok (m.memory.store a bytes) :=
    Memory.write_eq_ok.mpr ⟨hcheck, rfl⟩
  rw [storeBytes, exec_bind_of_ok (exec_memory m), hwrite]
  rfl

/-- The machine after a recorded store of bytes. -/
theorem follows_store (m : Machine) (a : Address) (bytes : List UInt8) :
    m.Follows { m with memory := m.memory.store a bytes, writes := m.writes.push ⟨a, bytes⟩ } :=
  (commitsAt_recordStore m a bytes).follows

/-- A store that is not refused. -/
theorem completes_storeBytes {m : Machine} {a : Address} {bytes : List UInt8}
    (hcheck : m.memory.check .write a bytes.length = .ok ()) :
    Completes m (storeBytes a bytes) :=
  ⟨(), _, exec_storeBytes hcheck, follows_store m a bytes⟩

/-- An element that was loaded is stored as it is. -/
theorem exec_store_word {src dst : Address} {w : Width} {m : Machine}
    (hwrite : m.memory.check .write dst w.bytes = .ok ()) :
    (store dst w (m.memory.word src w.bytes)).exec m =
      (.ok (), { m with
        memory := m.memory.copy src dst w.bytes
        writes := m.writes.push ⟨dst, m.memory.bytes src w.bytes⟩ }) := by
  have hbytes : LittleEndian.ofNat w.bytes (m.memory.word src w.bytes).toNat =
      m.memory.bytes src w.bytes := m.memory.ofNat_word src w.bytes
  rw [store, storeWord, hbytes, exec_storeBytes (by rw [Memory.length_bytes]; exact hwrite)]
  rfl

/-! ### The parts of a checked range -/

/-- The address of an element of a string, counted from the one that is handled first. -/
def element (first : Address) (back : Bool) (w : Width) (k : Nat) : Address :=
  if back then first - BitVec.ofNat 64 (k * w.bytes) else first + BitVec.ofNat 64 (k * w.bytes)

theorem element_zero (first : Address) (back : Bool) (w : Width) :
    element first back w 0 = first := by
  simp [element]

theorem element_succ (first : Address) (back : Bool) (w : Width) (k : Nat) :
    element first back w (k + 1) =
      element (if back then first - BitVec.ofNat 64 w.bytes else first + BitVec.ofNat 64 w.bytes)
        back w k := by
  have hsplit : BitVec.ofNat 64 ((k + 1) * w.bytes) =
      BitVec.ofNat 64 w.bytes + BitVec.ofNat 64 (k * w.bytes) := by
    rw [← BitVec.ofNat_add, Nat.succ_mul, Nat.add_comm]
  cases back with
  | false => simp only [element, Bool.false_eq_true, if_false, hsplit, BitVec.add_assoc]
  | true =>
    simp only [element, if_true, hsplit]
    grind

theorem element_one (a : Address) (back : Bool) (w : Width) :
    element a back w 1 =
      if back then a - BitVec.ofNat 64 w.bytes else a + BitVec.ofNat 64 w.bytes := by
  rw [element, Nat.one_mul]

theorem element_element (a : Address) (back : Bool) (w : Width) (count : Nat) :
    element (element a back w 1) back w count = element a back w (count + 1) := by
  rw [element_one, element_succ]

/-- The lowest address of `count` elements. -/
def lowest (first : Address) (back : Bool) (w : Width) (count : Nat) : Address :=
  if back then first - BitVec.ofNat 64 (count * w.bytes - w.bytes) else first

/-- How many elements lie below one of them. -/
def rank (back : Bool) (count k : Nat) : Nat :=
  if back then count - 1 - k else k

theorem rank_lt {back : Bool} {count k : Nat} (hk : k < count) : rank back count k < count := by
  rw [rank]
  split
  · omega
  · exact hk

/-- Where an element lies, counted from the lowest address of all. -/
theorem element_eq_lowest_add (first : Address) (back : Bool) (w : Width) {count k : Nat}
    (hk : k < count) : element first back w k =
      lowest first back w count + BitVec.ofNat 64 (rank back count k * w.bytes) := by
  cases back with
  | false => rfl
  | true =>
    have hsplit : count * w.bytes - w.bytes = k * w.bytes + (count - 1 - k) * w.bytes := by
      rw [← Nat.add_mul, show k + (count - 1 - k) = count - 1 by omega, Nat.sub_mul, Nat.one_mul]
    simp only [element, lowest, rank, if_true, hsplit, BitVec.ofNat_add]
    grind

/-- Where the range of all elements is not refused, none of them is. -/
theorem check_of_checkSpan {m : Memory} {access : Access} {first : Address} {back : Bool}
    {w : Width} {count : Nat}
    (h : m.check access (lowest first back w count) (count * w.bytes) = .ok ()) {k : Nat}
    (hk : k < count) : m.check access (element first back w k) w.bytes = .ok () := by
  have hfit : (rank back count k + 1) * w.bytes ≤ count * w.bytes :=
    Nat.mul_le_mul_right _ (rank_lt hk)
  rw [Nat.succ_mul] at hfit
  rw [element_eq_lowest_add first back w hk]
  exact Memory.check_of_subrange h hfit

/-! ### Loops of stores -/

/-- Elements that are moved one after the other. -/
theorem exec_moveElements (w : Width) (back : Bool) (count : Nat) (src dst : Address) (m : Machine)
    (hread : ∀ k < count, m.memory.check .read (element src back w k) w.bytes = .ok ())
    (hwrite : ∀ k < count, m.memory.check .write (element dst back w k) w.bytes = .ok ()) :
    ∃ m', (moveElements w back count src dst).exec m = (.ok (), m') ∧ m.Follows m' ∧
      m' = { m with
        memory := m.memory.copyElements back w.bytes count src dst
        writes := m'.writes } := by
  induction count generalizing src dst m with
  | zero => exact ⟨m, rfl, .refl m, rfl⟩
  | succ count ih =>
    have hsrc := hread 0 (Nat.succ_pos _)
    have hdst := hwrite 0 (Nat.succ_pos _)
    rw [element_zero] at hsrc hdst
    have hspace := m.memory.space_copy src dst w.bytes
    obtain ⟨m', hrest, hfollows, hm'⟩ := ih (element src back w 1) (element dst back w 1)
      { m with
        memory := m.memory.copy src dst w.bytes
        writes := m.writes.push ⟨dst, m.memory.bytes src w.bytes⟩ }
      (fun k hk ↦ by
        rw [Memory.check_congr hspace, element_element]
        exact hread (k + 1) (Nat.succ_lt_succ hk))
      (fun k hk ↦ by
        rw [Memory.check_congr hspace, element_element]
        exact hwrite (k + 1) (Nat.succ_lt_succ hk))
    rw [element_one, element_one] at hrest hm'
    refine ⟨m', ?_, (follows_store m dst _).trans hfollows, hm'⟩
    rw [moveElements, exec_bind_of_ok (exec_load hsrc), exec_bind_of_ok (exec_store_word hdst),
      ← hrest]
    cases back with
    | false => rfl
    | true => rfl

/-- The first chunk of a range that is not refused, and the rest of it. -/
theorem check_chunk {m : Memory} {access : Access} {a : Address} {length now : Nat}
    (h : m.check access a length = .ok ()) (hnow : now ≤ length) :
    m.check access a now = .ok () ∧
      m.check access (a + BitVec.ofNat 64 now) (length - now) = .ok () := by
  have hfirst := Memory.check_of_subrange h (show 0 + now ≤ length by omega)
  rw [show BitVec.ofNat 64 0 = 0#64 from rfl, BitVec.add_zero] at hfirst
  exact ⟨hfirst, Memory.check_of_subrange h (by omega)⟩

/-- A range that is moved in chunks. -/
theorem exec_moveChunks (count : Nat) (src dst : Address) (length : Nat) (m : Machine)
    (hread : m.memory.check .read src length = .ok ())
    (hwrite : m.memory.check .write dst length = .ok ()) :
    ∃ m', (moveChunks count src dst length).exec m = (.ok (), m') ∧ m.Follows m' ∧
      m' = { m with
        memory := m.memory.copyChunks chunkSize count src dst length
        writes := m'.writes } := by
  induction count generalizing src dst length m with
  | zero => exact ⟨m, rfl, .refl m, rfl⟩
  | succ count ih =>
    obtain ⟨hload, hread'⟩ := check_chunk hread (Nat.min_le_left length chunkSize)
    obtain ⟨hstore, hwrite'⟩ := check_chunk hwrite (Nat.min_le_left length chunkSize)
    have hspace := m.memory.space_copy src dst (min length chunkSize)
    obtain ⟨m', hrest, hfollows, hm'⟩ := ih _ _ _ { m with
        memory := m.memory.copy src dst (min length chunkSize)
        writes := m.writes.push ⟨dst, m.memory.bytes src (min length chunkSize)⟩ }
      ((Memory.check_congr hspace _ _ _).trans hread')
      ((Memory.check_congr hspace _ _ _).trans hwrite')
    refine ⟨m', ?_, (follows_store m dst _).trans hfollows, hm'⟩
    rw [moveChunks, exec_bind_of_ok (exec_loadBytes hload),
      exec_bind_of_ok (exec_storeBytes (by rw [Memory.length_bytes]; exact hstore))]
    exact hrest

/-- Copies of an element that fill a chunk from below do not reach past its end. -/
theorem length_flatten_replicate_le (element : List UInt8) (length : Nat) :
    (List.replicate (length / element.length) element).flatten.length ≤ length := by
  rw [length_flatten_replicate]
  exact Nat.div_mul_le_self _ _

theorem completes_fillChunks (element : List UInt8) (count : Nat) (dst : Address) (length : Nat)
    (m : Machine) (hwrite : m.memory.check .write dst length = .ok ()) :
    Completes m (fillChunks element count dst length) := by
  induction count generalizing dst length m with
  | zero => exact .pure m ()
  | succ count ih =>
    obtain ⟨hstore, hwrite'⟩ := check_chunk hwrite (Nat.min_le_left length chunkSize)
    have hfill := length_flatten_replicate_le element (min length chunkSize)
    refine .bind (completes_storeBytes (check_chunk hstore hfill).1) fun _ m' hspace ↦ ?_
    refine ih _ _ m' ?_
    rw [Memory.check_congr hspace]
    exact hwrite'

/-! ### Moves and stores -/

theorem reading_requireWideAddress (i : Instruction) : Reading (requireWideAddress i) :=
  .ite reading_unsupported (.pure ())

theorem quiet_backwards : Quiet backwards :=
  .bind quiet_flags fun _ ↦ .pure _

theorem quiet_sourceAddress (i : Instruction) : Quiet (sourceAddress i) :=
  .bind (quiet_segmentBase _) fun _ ↦ .bind (quiet_general _) fun _ ↦ .pure _

theorem quiet_advance (index : Fin 16) (count : Nat) (w : Width) : Quiet (advance index count w) :=
  .bind (quiet_general index) fun _ ↦ .bind quiet_backwards fun _ ↦ quiet_setGeneral _ _

theorem quiet_counter : Quiet counter :=
  .bind (quiet_general _) fun _ ↦ .pure _

theorem reading_span (first : Address) (count : Nat) (w : Width) : Reading (span first count w) :=
  .unless <| .bind quiet_backwards.reading fun _ ↦ .pure _

/-- Whether a machine walks strings toward lower addresses. -/
def walksBack (m : Machine) : Bool :=
  m.registers.rflags.get .direction

theorem exec_backwards (m : Machine) : backwards.exec m = (.ok (walksBack m), m) := rfl

/-- The outcome of a span, and of a check, on a machine that it leaves alone. -/
theorem eq_of_exec_span {first : Address} {count : Nat} {w : Width} {m m' : Machine}
    {range : Address × Nat} (h : (span first count w).exec m = (.ok range, m')) :
    range = (lowest first (walksBack m) w count, count * w.bytes) ∧ m' = m := by
  rw [span] at h
  by_cases hlong : addressLimit ≤ count * w.bytes
  · simp only [hlong, if_true] at h
    exact nomatch h
  · simp only [hlong, if_false] at h
    rw [exec_bind_of_ok (exec_backwards m), exec_pure, Prod.mk.injEq, Except.ok.injEq] at h
    exact ⟨h.1.symm, h.2.symm⟩

theorem eq_of_exec_check {access : Access} {a : Address} {length : Nat} {m m' : Machine}
    {v : Unit} (h : (check access a length).exec m = (.ok v, m')) :
    m.memory.check access a length = .ok () ∧ m' = m := by
  rw [check, exec_bind_of_ok (exec_memory m)] at h
  cases hcheck : m.memory.check access a length with
  | error fault =>
    rw [hcheck] at h
    exact nomatch h
  | ok =>
    rw [hcheck, ofMemory, exec_pure, Prod.mk.injEq] at h
    exact ⟨rfl, h.2.symm⟩

/-- A repeated move is refused as a whole or not at all. -/
theorem committing_moveRepeated (w : Width) (src dst : Address) (count : Nat) :
    Committing (moveRepeated w src dst count) := by
  intro m
  refine .read (reading_span src count w) fun range m₁ hspan ↦ ?_
  obtain ⟨rfl, rfl⟩ := eq_of_exec_span hspan
  refine .read (reading_span dst count w) fun range m₂ hspan' ↦ ?_
  obtain ⟨rfl, rfl⟩ := eq_of_exec_span hspan'
  refine .read (reading_check _ _ _) fun _ m₃ hread ↦ ?_
  obtain ⟨hread, rfl⟩ := eq_of_exec_check hread
  refine .read (reading_check _ _ _) fun _ m₄ hwrite ↦ ?_
  obtain ⟨hwrite, rfl⟩ := eq_of_exec_check hwrite
  refine Completes.commitsAt ?_
  split
  · obtain ⟨m', hmove, hfollows, _⟩ := exec_moveElements w (walksBack m₄) count src dst m₄
      (fun _ hk ↦ check_of_checkSpan hread hk) (fun _ hk ↦ check_of_checkSpan hwrite hk)
    exact ⟨(), m', (exec_bind_of_ok (exec_backwards m₄) _).trans hmove, hfollows⟩
  · obtain ⟨m', hmove, hfollows, _⟩ := exec_moveChunks (chunksIn (count * w.bytes)) _ _ _ m₄ hread
      hwrite
    exact ⟨(), m', hmove, hfollows⟩

theorem committing_moveString (w : Width) (i : Instruction) : Committing (moveString w i) := by
  refine .read (reading_requireWideAddress i) fun _ ↦ .read (quiet_sourceAddress i).reading
    fun src ↦ .read (quiet_general _).reading fun dst ↦ .ite ?_ ?_
  · exact .read (reading_load src w) fun v ↦ .quietly (committing_store dst w v) fun _ ↦
      .bind (quiet_advance _ 1 w) fun _ ↦ quiet_advance _ 1 w
  · refine .read quiet_counter.reading fun count ↦ .ite ?_ (Quiet.pure ()).committing
    exact .quietly (committing_moveRepeated w src dst count) fun _ ↦
      .bind (quiet_advance _ count w) fun _ ↦ .bind (quiet_advance _ count w) fun _ ↦
        quiet_setGeneral _ _

/-- A repeated store is refused as a whole or not at all. -/
theorem committing_storeString (w : Width) (i : Instruction) : Committing (storeString w i) := by
  refine .read (reading_requireWideAddress i) fun _ ↦ .read (quiet_generalLow _ w).reading
    fun v ↦ .read (quiet_general _).reading fun dst ↦ .ite ?_ ?_
  · exact .quietly (committing_store dst w v) fun _ ↦ quiet_advance _ 1 w
  · refine .read quiet_counter.reading fun count ↦ .ite ?_ (Quiet.pure ()).committing
    intro m
    refine .read (reading_span dst count w) fun range m₁ hspan ↦ ?_
    obtain ⟨rfl, rfl⟩ := eq_of_exec_span hspan
    refine .read (reading_check _ _ _) fun _ m₂ hwrite ↦ ?_
    obtain ⟨hwrite, rfl⟩ := eq_of_exec_check hwrite
    exact .quietly (completes_fillChunks _ _ _ _ m₂ hwrite).commitsAt fun _ ↦
      .bind (quiet_advance _ count w) fun _ ↦ quiet_setGeneral _ _

/-! ### Loads and comparisons -/

theorem reading_loadString (w : Width) (i : Instruction) : Reading (loadString w i) := by
  refine .bind (reading_requireWideAddress i) fun _ ↦ .bind (quiet_sourceAddress i).reading
    fun src ↦ .ite (.bind quiet_counter.reading fun count ↦ ?_) (.bind (.pure 1) fun count ↦ ?_)
  all_goals
    exact .ite (.bind (reading_span src count w) fun _ ↦ .bind (reading_check _ _ _) fun _ ↦
      .bind quiet_backwards.reading fun _ ↦ .bind (reading_load _ w) fun _ ↦
        .bind (quiet_setGeneralLow _ w _).reading fun _ ↦
          .bind (quiet_advance _ count w).reading fun _ ↦
            .ite (quiet_setGeneral _ _).reading (.pure ())) (.pure ())

theorem reading_compareRepeated (repetition : Repeat) {step : Exec Unit} (hstep : Reading step)
    (count : Nat) : Reading (compareRepeated repetition step count) := by
  induction count with
  | zero => exact .pure ()
  | succ count ih =>
    exact .bind hstep fun _ ↦ .bind (quiet_setGeneral _ _).reading fun _ ↦
      .bind quiet_flags.reading fun _ ↦ .ite (.pure ()) ih

theorem reading_compareAll (i : Instruction) {step : Exec Unit} (hstep : Reading step) :
    Reading (compareAll i step) := by
  rw [compareAll]
  split
  · exact hstep
  · exact .bind quiet_counter.reading fun count ↦ reading_compareRepeated _ hstep count

theorem reading_compareStrings (w : Width) (i : Instruction) : Reading (compareStrings w i) :=
  .bind (reading_requireWideAddress i) fun _ ↦ reading_compareAll i <|
    .bind (quiet_sourceAddress i).reading fun _ ↦ .bind (reading_load _ w) fun _ ↦
      .bind (quiet_general _).reading fun _ ↦ .bind (reading_load _ w) fun _ ↦
        .bind (quiet_modifyFlags _).reading fun _ ↦ .bind (quiet_advance _ 1 w).reading fun _ ↦
          (quiet_advance _ 1 w).reading

theorem reading_scanString (w : Width) (i : Instruction) : Reading (scanString w i) :=
  .bind (reading_requireWideAddress i) fun _ ↦ .bind (quiet_generalLow _ w).reading fun _ ↦
    reading_compareAll i <|
      .bind (quiet_general _).reading fun _ ↦ .bind (reading_load _ w) fun _ ↦
        .bind (quiet_modifyFlags _).reading fun _ ↦ (quiet_advance _ 1 w).reading

theorem committing_string (op : StringOp) (w : Width) (i : Instruction) :
    Committing (string op w i) := by
  cases op with
  | movs => exact committing_moveString w i
  | stos => exact committing_storeString w i
  | lods => exact (reading_loadString w i).committing
  | cmps => exact (reading_compareStrings w i).committing
  | scas => exact (reading_scanString w i).committing

end LongMode.Exec
