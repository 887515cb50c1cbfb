import LongMode.Machine.Basic
import LongMode.Proofs.Memory.Cells

/-!
What an instruction may do to memory, said of the computations that it is made of.

* `Exec.Quiet`: it changes registers only, and never faults.
* `Exec.Reading`: it leaves memory and the record of stores alone, and may fault.
* `Exec.Storing`: it changes memory by stores only, and records each of them: the record tells which
  byte every cell has in the end. This is kept by every sequence (`Storing.bind`).
* `Exec.Committing`: it stores, and if it faults then memory is what it was. This is kept by reading
  first (`Committing.read`) and by going on quietly (`Committing.quietly`); an instruction that
  stores and then does something that can fault is not of this kind.

Beside each building block of instructions stands the strongest of these that it has. None of them
changes the segment selectors.
-/

set_option autoImplicit false
set_option relaxedAutoImplicit false

namespace LongMode

/-- The cells that stores give bytes, one after the other, each with its byte. -/
def AddressSpace.cellsOf (s : AddressSpace) (log : List MemoryWrite) :
    List ((FrameId × Nat) × UInt8) :=
  log.flatMap fun write ↦ spread s.cell? write.address.toNat write.bytes

namespace Machine

/-- The machine after a change of registers other than the segment selectors. -/
structure Keeps (m m' : Machine) : Prop where
  memory : m'.memory = m.memory
  writes : m'.writes = m.writes
  segments : m'.registers.segments = m.registers.segments

/-- The machine after stores that were all recorded: without a new record memory is unchanged, and
otherwise the new records give all cells their bytes. -/
structure Follows (m m' : Machine) : Prop where
  stored : m.memory.Stored m'.memory
  unchanged : m'.writes.size = m.writes.size → m'.memory = m.memory
  recorded : ∃ log, m'.writes.toList = m.writes.toList ++ log ∧
    m'.memory.frames.contents =
      FrameStore.assign m.memory.frames.contents (m.memory.space.cellsOf log)
  segments : m'.registers.segments = m.registers.segments

theorem Keeps.refl (m : Machine) : m.Keeps m :=
  ⟨rfl, rfl, rfl⟩

theorem Keeps.trans {m₁ m₂ m₃ : Machine} (h : m₁.Keeps m₂) (h' : m₂.Keeps m₃) : m₁.Keeps m₃ :=
  ⟨h'.memory.trans h.memory, h'.writes.trans h.writes, h'.segments.trans h.segments⟩

theorem Keeps.follows {m m' : Machine} (h : m.Keeps m') : m.Follows m' := by
  refine ⟨?_, fun _ ↦ h.memory, ⟨[], ?_, ?_⟩, h.segments⟩
  · rw [h.memory]
    exact .refl _
  · rw [h.writes, List.append_nil]
  · rw [h.memory]
    rfl

namespace Follows

theorem refl (m : Machine) : m.Follows m :=
  (Keeps.refl m).follows

theorem writes_le {m m' : Machine} (h : m.Follows m') : m.writes.size ≤ m'.writes.size := by
  obtain ⟨log, hwrites, _⟩ := h.recorded
  rw [← Array.length_toList, ← Array.length_toList, hwrites, List.length_append]
  exact Nat.le_add_right _ _

theorem trans {m₁ m₂ m₃ : Machine} (h : m₁.Follows m₂) (h' : m₂.Follows m₃) : m₁.Follows m₃ := by
  have hle := h.writes_le
  have hle' := h'.writes_le
  obtain ⟨log, hwrites, hcontents⟩ := h.recorded
  obtain ⟨log', hwrites', hcontents'⟩ := h'.recorded
  refine ⟨h.stored.trans h'.stored, fun hsize ↦ ?_, ⟨log ++ log', ?_, ?_⟩,
    h'.segments.trans h.segments⟩
  · rw [h'.unchanged (by omega), h.unchanged (by omega)]
  · rw [hwrites', hwrites, List.append_assoc]
  · rw [hcontents', hcontents, h.stored.space, AddressSpace.cellsOf, AddressSpace.cellsOf,
      AddressSpace.cellsOf, List.flatMap_append, FrameStore.assign_append]

end Follows

end Machine

namespace Exec

variable {α β : Type}

/-! ### Running a computation -/

/-- The outcome of a computation and the machine it leaves. -/
def exec (c : Exec α) (m : Machine) : Except Stop α × Machine :=
  c.run.run m

@[simp] theorem exec_pure (v : α) (m : Machine) : (pure v : Exec α).exec m = (.ok v, m) := rfl

theorem exec_bind_of_ok {c : Exec α} {m m' : Machine} {v : α} (h : c.exec m = (.ok v, m'))
    (f : α → Exec β) : (c >>= f).exec m = (f v).exec m' := by
  change ExceptT.bindCont f (c.exec m).1 (c.exec m).2 = _
  rw [h]
  rfl

theorem exec_bind_of_error {c : Exec α} {m m' : Machine} {e : Stop}
    (h : c.exec m = (.error e, m')) (f : α → Exec β) : (c >>= f).exec m = (.error e, m') := by
  change ExceptT.bindCont f (c.exec m).1 (c.exec m).2 = _
  rw [h]
  rfl

theorem exec_bind_congr {c d : Exec α} {m : Machine} (h : c.exec m = d.exec m)
    (f : α → Exec β) : (c >>= f).exec m = (d >>= f).exec m := by
  change ExceptT.bindCont f (c.exec m).1 (c.exec m).2 =
    ExceptT.bindCont f (d.exec m).1 (d.exec m).2
  rw [h]

/-! ### The four kinds of computations -/

/-- It changes registers only, and never stops. -/
def Quiet (c : Exec α) : Prop :=
  ∀ m : Machine, ∃ v m', c.exec m = (.ok v, m') ∧ m.Keeps m'

/-- It leaves memory and the record of stores alone. -/
def Reading (c : Exec α) : Prop :=
  ∀ m : Machine, m.Keeps (c.exec m).2

/-- It stores to memory and records each store. -/
def Storing (c : Exec α) : Prop :=
  ∀ m : Machine, m.Follows (c.exec m).2

/-- Begun on a machine it stores, and if it stops then memory is what it was. -/
structure CommitsAt (m : Machine) (c : Exec α) : Prop where
  follows : m.Follows (c.exec m).2
  stop (e : Stop) : (c.exec m).1 = .error e → (c.exec m).2.memory = m.memory

/-- It stores, and if it stops then memory is what it was. -/
def Committing (c : Exec α) : Prop :=
  ∀ m, CommitsAt m c

theorem Quiet.reading {c : Exec α} (h : Quiet c) : Reading c := by
  intro m
  obtain ⟨v, m', hexec, hkeeps⟩ := h m
  rw [hexec]
  exact hkeeps

theorem Reading.committing {c : Exec α} (h : Reading c) : Committing c := fun m ↦
  ⟨(h m).follows, fun _ _ ↦ (h m).memory⟩

theorem Reading.storing {c : Exec α} (h : Reading c) : Storing c := fun m ↦
  (h m).follows

theorem Quiet.committing {c : Exec α} (h : Quiet c) : Committing c :=
  h.reading.committing

theorem Quiet.storing {c : Exec α} (h : Quiet c) : Storing c :=
  h.reading.storing

theorem Committing.storing {c : Exec α} (h : Committing c) : Storing c := fun m ↦
  (h m).follows

/-! ### Sequences -/

theorem Quiet.pure (v : α) : Quiet (Pure.pure v : Exec α) := fun m ↦
  ⟨v, m, rfl, .refl m⟩

theorem Quiet.bind {c : Exec α} {f : α → Exec β} (hc : Quiet c) (hf : ∀ v, Quiet (f v)) :
    Quiet (c >>= f) := by
  intro m
  obtain ⟨v, m', hexec, hkeeps⟩ := hc m
  obtain ⟨v', m'', hexec', hkeeps'⟩ := hf v m'
  rw [exec_bind_of_ok hexec]
  exact ⟨v', m'', hexec', hkeeps.trans hkeeps'⟩

theorem Reading.pure (v : α) : Reading (Pure.pure v : Exec α) :=
  (Quiet.pure v).reading

theorem Reading.bind {c : Exec α} {f : α → Exec β} (hc : Reading c) (hf : ∀ v, Reading (f v)) :
    Reading (c >>= f) := by
  intro m
  have hfirst := hc m
  cases hexec : c.exec m with
  | mk outcome m' =>
    rw [hexec] at hfirst
    cases outcome with
    | error e =>
      rw [exec_bind_of_error hexec]
      exact hfirst
    | ok v =>
      rw [exec_bind_of_ok hexec]
      exact hfirst.trans (hf v m')

theorem Storing.bind {c : Exec α} {f : α → Exec β} (hc : Storing c) (hf : ∀ v, Storing (f v)) :
    Storing (c >>= f) := by
  intro m
  have hfirst := hc m
  cases hexec : c.exec m with
  | mk outcome m' =>
    rw [hexec] at hfirst
    cases outcome with
    | error e =>
      rw [exec_bind_of_error hexec]
      exact hfirst
    | ok v =>
      rw [exec_bind_of_ok hexec]
      exact hfirst.trans (hf v m')

/-- Reading before a computation that commits. -/
theorem CommitsAt.read {m : Machine} {c : Exec α} {f : α → Exec β} (hc : Reading c)
    (hf : ∀ v m', c.exec m = (.ok v, m') → CommitsAt m' (f v)) : CommitsAt m (c >>= f) := by
  have hfirst := hc m
  cases hexec : c.exec m with
  | mk outcome m' =>
    rw [hexec] at hfirst
    cases outcome with
    | error e =>
      have hbind := exec_bind_of_error hexec f
      exact ⟨by rw [hbind]; exact hfirst.follows, fun _ _ ↦ by rw [hbind]; exact hfirst.memory⟩
    | ok v =>
      have hbind := exec_bind_of_ok hexec f
      obtain ⟨hfollows, hfault⟩ := hf v m' hexec
      refine ⟨?_, fun e he ↦ ?_⟩
      · rw [hbind]
        exact hfirst.follows.trans hfollows
      · rw [hbind] at he ⊢
        exact (hfault e he).trans hfirst.memory

theorem Committing.read {c : Exec α} {f : α → Exec β} (hc : Reading c)
    (hf : ∀ v, Committing (f v)) : Committing (c >>= f) := fun _ ↦
  .read hc fun v m' _ ↦ hf v m'

/-- Changes of registers after a computation that commits. -/
theorem CommitsAt.quietly {m : Machine} {c : Exec α} {f : α → Exec β} (hc : CommitsAt m c)
    (hf : ∀ v, Quiet (f v)) : CommitsAt m (c >>= f) := by
  obtain ⟨hfollows, hfault⟩ := hc
  cases hexec : c.exec m with
  | mk outcome m' =>
    rw [hexec] at hfollows hfault
    cases outcome with
    | error e =>
      have hbind := exec_bind_of_error hexec f
      exact ⟨by rw [hbind]; exact hfollows, fun _ _ ↦ by rw [hbind]; exact hfault e rfl⟩
    | ok v =>
      have hbind := exec_bind_of_ok hexec f
      obtain ⟨v', m'', hexec', hkeeps⟩ := hf v m'
      rw [hexec'] at hbind
      refine ⟨?_, fun e he ↦ ?_⟩
      · rw [hbind]
        exact hfollows.trans hkeeps.follows
      · rw [hbind] at he
        exact nomatch he

theorem Committing.quietly {c : Exec α} {f : α → Exec β} (hc : Committing c)
    (hf : ∀ v, Quiet (f v)) : Committing (c >>= f) := fun m ↦
  (hc m).quietly hf

/-! ### Choices -/

section Choices

variable {p : Prop} [Decidable p] {c d : Exec α}

theorem Quiet.ite (hc : Quiet c) (hd : Quiet d) : Quiet (if p then c else d) := by
  split
  · exact hc
  · exact hd

theorem Reading.ite (hc : Reading c) (hd : Reading d) : Reading (if p then c else d) := by
  split
  · exact hc
  · exact hd

theorem Committing.ite (hc : Committing c) (hd : Committing d) :
    Committing (if p then c else d) := by
  split
  · exact hc
  · exact hd

end Choices

/-! ### Faults and registers -/

theorem reading_fault (f : Fault) : Reading (fault f : Exec α) := fun m ↦ .refl m

/-- Going on unless there is a fault. -/
theorem Reading.unless {p : Prop} [Decidable p] {f : Fault} {k : Unit → Exec α}
    (hk : Reading (k ())) : Reading (if p then fault f >>= k else k ()) :=
  .ite (.bind (reading_fault f) fun _ ↦ hk) hk

theorem reading_unsupported : Reading (unsupported : Exec α) :=
  reading_fault _

theorem reading_invalid : Reading (invalid : Exec α) :=
  reading_fault _

theorem reading_orUnsupported (o : Option α) : Reading (orUnsupported o) := by
  cases o with
  | none => exact reading_unsupported
  | some v => exact .pure v

theorem reading_ofMemory (e : Except MemoryFault α) : Reading (ofMemory e) := by
  cases e with
  | error f => exact reading_fault _
  | ok v => exact .pure v

theorem reading_orPanic (e : Except Panic α) : Reading (orPanic e) := by
  cases e with
  | error p => exact fun m ↦ .refl m
  | ok v => exact .pure v

theorem quiet_get : Quiet (get : Exec Machine) := fun m ↦
  ⟨m, m, rfl, .refl m⟩

theorem quiet_registers : Quiet registers :=
  .bind quiet_get fun _ ↦ .pure _

theorem quiet_modifyRegisters {f : RegisterFile → RegisterFile}
    (hf : ∀ r, (f r).segments = r.segments) : Quiet (modifyRegisters f) :=
  fun m ↦ ⟨(), _, rfl, rfl, rfl, hf m.registers⟩

theorem quiet_flags : Quiet flags :=
  .bind quiet_registers fun _ ↦ .pure _

theorem quiet_setFlags (f : Flags) : Quiet (setFlags f) :=
  quiet_modifyRegisters fun _ ↦ rfl

theorem quiet_modifyFlags (f : Flags → Flags) : Quiet (modifyFlags f) :=
  quiet_modifyRegisters fun _ ↦ rfl

theorem quiet_general (index : Fin 16) : Quiet (general index) :=
  .bind quiet_registers fun _ ↦ .pure _

theorem quiet_setGeneral (index : Fin 16) (value : BitVec 64) : Quiet (setGeneral index value) :=
  quiet_modifyRegisters fun _ ↦ rfl

theorem quiet_generalLow (index : Fin 16) (w : Width) : Quiet (generalLow index w) :=
  .bind (quiet_general index) fun _ ↦ .pure _

theorem quiet_setGeneralLow (index : Fin 16) (w : Width) (value : BitVec w.bits) :
    Quiet (setGeneralLow index w value) :=
  quiet_modifyRegisters fun _ ↦ rfl

theorem reading_readRegister (r : Register) : Reading (readRegister r) :=
  .bind quiet_registers.reading fun _ ↦ reading_orUnsupported _

/-- Writing a named register changes a general register, or is refused. -/
theorem exec_writeRegister (r : Register) (value : BitVec 64) (m : Machine) :
    (writeRegister r value).exec m =
      match m.registers.write? r value with
      | some after => (.ok (), { m with registers := after })
      | none => (.error (.fault (.decode .unsupported)), m) := by
  have hregisters : registers.exec m = (.ok m.registers, m) := rfl
  rw [writeRegister, exec_bind_of_ok hregisters]
  cases m.registers.write? r value with
  | none => rfl
  | some after => rfl

theorem segments_of_write? {registers after : RegisterFile} {r : Register} {value : BitVec 64}
    (h : registers.write? r value = some after) : after.segments = registers.segments := by
  obtain ⟨part, _, rfl⟩ := Option.map_eq_some_iff.mp h
  rfl

theorem reading_writeRegister (r : Register) (value : BitVec 64) :
    Reading (writeRegister r value) := by
  intro m
  rw [exec_writeRegister]
  cases hwrite : m.registers.write? r value with
  | none => exact .refl m
  | some after => exact ⟨rfl, rfl, segments_of_write? hwrite⟩

/-- A general register can be written. -/
theorem quiet_writeRegister {r : Register} (h : r.generalPart?.isSome) (value : BitVec 64) :
    Quiet (writeRegister r value) := by
  intro m
  obtain ⟨part, hpart⟩ := Option.isSome_iff_exists.mp h
  have hwrite : ∃ after, m.registers.write? r value = some after := by
    rw [RegisterFile.write?, hpart]
    exact ⟨_, rfl⟩
  obtain ⟨after, hafter⟩ := hwrite
  rw [exec_writeRegister, hafter]
  exact ⟨(), _, rfl, rfl, rfl, segments_of_write? hafter⟩

/-! ### Addresses -/

theorem reading_addressPart (r : Option Register) : Reading (addressPart r) := by
  cases r with
  | none => exact .pure 0
  | some r => exact reading_readRegister r

theorem reading_offset (o : MemoryOperand) : Reading (offset o) :=
  .bind (reading_addressPart _) fun _ ↦ .bind (reading_addressPart _) fun _ ↦ .pure _

theorem quiet_segmentBase (s : Segment) : Quiet (segmentBase s) := by
  cases s with
  | fs => exact .bind quiet_registers fun _ ↦ .pure _
  | gs => exact .bind quiet_registers fun _ ↦ .pure _
  | es => exact .pure 0
  | cs => exact .pure 0
  | ss => exact .pure 0
  | ds => exact .pure 0

theorem reading_linear (o : MemoryOperand) : Reading (linear o) :=
  .bind (reading_offset o) fun _ ↦ .bind (quiet_segmentBase _).reading fun _ ↦ .pure _

/-! ### Memory -/

theorem quiet_memory : Quiet memory :=
  .bind quiet_get fun _ ↦ .pure _

theorem exec_memory (m : Machine) : memory.exec m = (.ok m.memory, m) := rfl

theorem reading_check (access : Access) (a : Address) (length : Nat) :
    Reading (check access a length) :=
  .bind quiet_memory.reading fun _ ↦ reading_ofMemory _

theorem reading_loadBytes (a : Address) (count : Nat) : Reading (loadBytes a count) :=
  .bind quiet_memory.reading fun _ ↦ reading_ofMemory _

theorem reading_loadWord (a : Address) (size : Nat) : Reading (loadWord a size) :=
  .bind (reading_loadBytes a size) fun _ ↦ .pure _

theorem reading_load (a : Address) (w : Width) : Reading (load a w) :=
  reading_loadWord a w.bytes

/-- A store that was made in the memory of a machine is recorded. -/
theorem commitsAt_record {m : Machine} {after : Memory} {a : Address} {bytes : List UInt8}
    (h : m.memory.Stored after) (hcontents : after.frames.contents = FrameStore.assign
      m.memory.frames.contents (spread m.memory.space.cell? a.toNat bytes)) :
    CommitsAt m (record after a bytes) := by
  have hexec : (record after a bytes).exec m =
      (.ok (), { m with memory := after, writes := m.writes.push ⟨a, bytes⟩ }) := rfl
  refine ⟨?_, fun e he ↦ ?_⟩
  · rw [hexec]
    refine ⟨h, fun hsize ↦ ?_, ⟨[⟨a, bytes⟩], Array.toList_push, ?_⟩, rfl⟩
    · rw [Array.size_push] at hsize
      exact absurd hsize (Nat.succ_ne_self _)
    · rw [AddressSpace.cellsOf, List.flatMap_singleton]
      exact hcontents
  · rw [hexec] at he
    exact nomatch he

/-- What follows an access that may be refused is begun on the same machine. -/
theorem CommitsAt.ofMemory {m : Machine} {e : Except MemoryFault α} {f : α → Exec β}
    (hf : ∀ v, e = .ok v → CommitsAt m (f v)) : CommitsAt m (ofMemory e >>= f) := by
  refine .read (reading_ofMemory e) fun v m' hexec ↦ ?_
  cases e with
  | error fault => exact nomatch hexec
  | ok v' =>
    rw [Exec.ofMemory, exec_pure, Prod.mk.injEq, Except.ok.injEq] at hexec
    obtain ⟨rfl, rfl⟩ := hexec
    exact hf v' rfl

/-- What follows a look at memory is begun on the same machine. -/
theorem CommitsAt.memory {m : Machine} {f : Memory → Exec β} (hf : CommitsAt m (f m.memory)) :
    CommitsAt m (memory >>= f) := by
  refine .read quiet_memory.reading fun memory m' hexec ↦ ?_
  rw [exec_memory, Prod.mk.injEq, Except.ok.injEq] at hexec
  obtain ⟨rfl, rfl⟩ := hexec
  exact hf

theorem commitsAt_recordStore (m : Machine) (a : Address) (bytes : List UInt8) :
    CommitsAt m (record (m.memory.store a bytes) a bytes) :=
  commitsAt_record (m.memory.stored_store a bytes) (m.memory.contents_store a bytes)

theorem committing_storeBytes (a : Address) (bytes : List UInt8) :
    Committing (storeBytes a bytes) := fun m ↦
  .memory <| .ofMemory fun after hwrite ↦ by
    obtain ⟨_, rfl⟩ := Memory.write_eq_ok.mp hwrite
    exact commitsAt_recordStore m a bytes

theorem committing_storeWord (a : Address) (size : Nat) (value : BitVec (8 * size)) :
    Committing (storeWord a size value) :=
  committing_storeBytes a _

theorem committing_store (a : Address) (w : Width) (value : BitVec w.bits) :
    Committing (store a w value) :=
  committing_storeBytes a _

/-- An indivisible update that changes the cell is recorded, and one that does not leaves memory
alone. -/
theorem committing_atomically (a : Address) (w : Width)
    (f : BitVec w.bits → BitVec w.bits × α) : Committing (atomically a w f) := by
  intro m
  refine .memory <| .ofMemory fun outcome hupdate ↦ ?_
  obtain ⟨⟨old, new, result⟩, after⟩ := outcome
  have hstored := Memory.stored_atomicUpdate hupdate
  obtain ⟨_, _, hresult, _⟩ := Memory.atomicUpdate_eq_ok.mp hupdate
  rw [Prod.mk.injEq, Prod.mk.injEq] at hresult
  obtain ⟨rfl, rfl, rfl⟩ := hresult
  by_cases hchanged : (f (m.memory.word a w.bytes)).1 = m.memory.word a w.bytes
  · simp only [hchanged, ne_eq, not_true, if_false]
    exact (Quiet.pure _).committing m
  · simp only [ne_eq, hchanged, not_false_eq_true, if_true]
    exact (commitsAt_record hstored (Memory.contents_atomicUpdate hupdate)).quietly fun _ ↦ .pure _

/-! ### Operands -/

theorem reading_readOperand (o : Operand) (w : Width) : Reading (readOperand o w) := by
  cases o with
  | register r => exact .bind (reading_readRegister r) fun _ ↦ .pure _
  | immediate value size => exact .pure _
  | memory m => exact .bind (reading_linear m) fun a ↦ reading_load a w
  | branch target => exact .pure _
  | implicit => exact reading_unsupported

theorem committing_writeOperand (o : Operand) (w : Width) (value : BitVec w.bits) :
    Committing (writeOperand o w value) := by
  cases o with
  | register r => exact (reading_writeRegister r _).committing
  | immediate value size => exact reading_invalid.committing
  | memory m => exact .read (reading_linear m) fun a ↦ committing_store a w value
  | branch target => exact reading_invalid.committing
  | implicit => exact reading_invalid.committing

theorem committing_tryUpdate (o : Operand) (w : Width) (store : Bool)
    (f : Flags → BitVec w.bits → Except Panic (BitVec w.bits × Flags)) :
    Committing (tryUpdate o w store f) := by
  cases o with
  | register r =>
    refine Reading.committing ?_
    refine .bind (reading_readRegister r) fun old ↦ .bind quiet_flags.reading fun before ↦
      .bind (reading_orPanic _) fun (new, after) ↦ ?_
    cases store with
    | false => exact (quiet_setFlags after).reading
    | true => exact .bind (reading_writeRegister r _) fun _ ↦ (quiet_setFlags after).reading
  | memory m =>
    refine .read (reading_linear m) fun a ↦ .read (reading_load a w) fun old ↦
      .read quiet_flags.reading fun before ↦ .read (reading_orPanic _) fun (new, after) ↦ ?_
    cases store with
    | false => exact (quiet_setFlags after).committing
    | true =>
      by_cases hsame : new = old
      · simp only [hsame, if_true]
        exact .read (reading_check _ _ _) fun _ ↦ (quiet_setFlags after).committing
      · simp only [hsame, if_true, if_false]
        exact .quietly (committing_store a w new) fun _ ↦ quiet_setFlags after
  | immediate value size => exact reading_invalid.committing
  | branch target => exact reading_invalid.committing
  | implicit => exact reading_invalid.committing

theorem committing_update (o : Operand) (w : Width) (store : Bool)
    (f : Flags → BitVec w.bits → BitVec w.bits × Flags) : Committing (update o w store f) :=
  committing_tryUpdate o w store _

/-! ### The stack -/

theorem committing_push (w : Width) (value : BitVec w.bits) : Committing (push w value) :=
  .read (quiet_general _).reading fun _ ↦
    .quietly (committing_store _ w value) fun _ ↦ quiet_setGeneral _ _

theorem reading_pop (w : Width) : Reading (pop w) :=
  .bind (quiet_general _).reading fun top ↦ .bind (reading_load top w) fun _ ↦
    .bind (quiet_setGeneral _ _).reading fun _ ↦ .pure _

end Exec

theorem Instruction.reading_operand (i : Instruction) (index : Nat) :
    Exec.Reading (i.operand index) :=
  Exec.reading_orUnsupported _

theorem Operand.reading_width (o : Operand) : Exec.Reading o.width :=
  Exec.reading_orUnsupported _

end LongMode
