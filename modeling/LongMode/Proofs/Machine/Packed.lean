import LongMode.Core.Basic
import LongMode.Proofs.Machine.Lanes
import LongMode.Proofs.Machine.Straight

/-!
Instructions that calculate with vectors, and where their vectors come from. `Machine.Calculates`
tells the calculation that an instruction stands for on a machine: its operation, the vector in its
source, and the count or the constant that it takes. The instruction completes with the one vector
in its destination that has the lanes of this calculation, and with nothing else changed
(`Machine.completesWith_of_calculates`).

A source in memory has to lie at a multiple of 16 and to be readable. `Thread.execute_vectors` puts
both together for a thread, which is as it was, apart from its queue of faults, when the source does
not.
-/

set_option autoImplicit false
set_option relaxedAutoImplicit false

namespace LongMode

/-! ### Operands -/

/-- An instruction without a lock prefix whose destination is a vector register. -/
structure Instruction.IntoVector (i : Instruction) (d : Fin 16) : Prop where
  unlocked : i.prefixes.lock = false
  destination : i.operands[0]? = some (.register (.xmm d))

/-- The mnemonics of instructions that take a vector from their second operand, in a register or in
memory. -/
inductive Mnemonic.TakesVector : Mnemonic → Prop
  | packed (op : PackedOp) : TakesVector (.packed op)
  | packedShift (op : LaneShift) (w : Width) : TakesVector (.packedShift op w)
  | shuffle (op : ShuffleOp) : TakesVector (.shuffle op)

namespace Machine

open Exec

/-- The vector in an operand: in a register, or in 16 bytes of memory at a multiple of 16. -/
inductive HasVector (m : Machine) : Operand → Vector128 → Prop
  | register (s : Fin 16) : HasVector m (.register (.xmm s)) (m.registers.vector s)
  | memory {o : MemoryOperand} {a : Address} {bytes : List UInt8} : Ends (linear o) m a m →
    a.toNat % 16 = 0 → m.memory.read a 16 = .ok bytes →
    HasVector m (.memory o) (BitVec.ofNat 128 (LittleEndian.toNat bytes))

/-- The calculation that an instruction stands for, and the vector in its source. A shift takes its
count from a constant byte or from the low half of its source. -/
inductive Calculates (m : Machine) (i : Instruction) : Calculation → Vector128 → Prop
  | packed {op : PackedOp} {o : Operand} {v : Vector128} : i.mnemonic = .packed op →
    i.operands[1]? = some o → m.HasVector o v → Calculates m i (.packed op) v
  | shiftByVector {op : LaneShift} {w : Width} {o : Operand} {v : Vector128} :
    i.mnemonic = .packedShift op w → i.operands[1]? = some o → m.HasVector o v →
    Calculates m i (.shift op w (v.toNat % 2 ^ 64)) v
  | shift {op : LaneShift} {w : Width} {c : BitVec 64} {size : Nat} (v : Vector128) :
    i.mnemonic = .packedShift op w → i.operands[1]? = some (.immediate c size) →
    Calculates m i (.shift op w (c.toNat % 2 ^ 8)) v
  | shiftBytes {left : Bool} {c : BitVec 64} {size : Nat} (v : Vector128) :
    i.mnemonic = .byteShift left → i.operands[1]? = some (.immediate c size) →
    Calculates m i (.shiftBytes left (c.toNat % 2 ^ 8)) v
  | shuffle {op : ShuffleOp} {o : Operand} {v : Vector128} {c : BitVec 64} {size : Nat} :
    i.mnemonic = .shuffle op → i.operands[1]? = some o → m.HasVector o v →
    i.operands[2]? = some (.immediate c size) →
    Calculates m i (.shuffle op (c.toNat % 2 ^ 8)) v

end Machine

namespace Exec

variable {m : Machine} {i : Instruction} {o : Operand} {v : Vector128}

theorem exec_vector (index : Fin 16) (m : Machine) :
    (vector index).exec m = (.ok (m.registers.vector index), m) := rfl

theorem exec_setVector (index : Fin 16) (v : Vector128) (m : Machine) :
    (setVector index v).exec m =
      (.ok (), { m with registers := m.registers.setVector index v }) := rfl

theorem exec_vectorIndex (index : Fin 16) (m : Machine) :
    (vectorIndex (.register (.xmm index))).exec m = (.ok index, m) := rfl

theorem exec_loadWord {a : Address} {size : Nat} {bytes : List UInt8}
    (h : m.memory.read a size = .ok bytes) :
    (loadWord a size).exec m = (.ok (BitVec.ofNat (8 * size) (LittleEndian.toNat bytes)), m) :=
  exec_bind_of_ok (exec_loadBytes_of_ok h) _

theorem exec_loadWord_of_error {a : Address} {size : Nat} {e : MemoryFault}
    (h : m.memory.read a size = .error e) :
    (loadWord a size).exec m = (.error (.fault (.memory e)), m) :=
  exec_bind_of_error (exec_loadBytes_of_error h) _

theorem exec_vectorAddress {o : MemoryOperand} {a : Address} (h : Ends (linear o) m a m) :
    (vectorAddress o true).exec m =
      if a.toNat % 16 = 0 then (.ok a, m) else (.error (.fault .generalProtection), m) := by
  rw [vectorAddress, exec_bind_of_ok h, exec_unless]
  by_cases haligned : a.toNat % 16 = 0
  · simp [haligned]
  · simp [haligned]

theorem exec_readVector (h : m.HasVector o v) : (readVector o true).exec m = (.ok v, m) := by
  cases h with
  | register s => rfl
  | memory hlinear haligned hread =>
    have haddress := exec_vectorAddress hlinear
    rw [if_pos haligned] at haddress
    exact (exec_bind_of_ok haddress _).trans (exec_loadWord hread)

theorem exec_constant {index : Nat} {c : BitVec 64} {size : Nat}
    (h : i.operands[index]? = some (.immediate c size)) (m : Machine) :
    (constant i index).exec m = (.ok (c.toNat % 2 ^ 8), m) := by
  rw [constant, exec_bind_of_ok (exec_operand h m)]
  simp

/-- The number in the low half of a vector. -/
theorem toNat_lane_qword (v : Vector128) : (v.lane .qword 0).toNat = v.toNat % 2 ^ 64 := by
  rw [Vector128.toNat_lane, Nat.zero_mul, Nat.pow_zero, Nat.div_one]
  rfl

/-- A shift, as soon as its count is known. -/
theorem exec_packedShift {op : LaneShift} {w : Width} {d : Fin 16} {count : Nat}
    (hdst : i.operands[0]? = some (.register (.xmm d))) (ho : i.operands[1]? = some o)
    (hcount : (∃ c size, o = .immediate c size ∧ c.toNat % 2 ^ 8 = count) ∨
      ∃ v, m.HasVector o v ∧ v.toNat % 2 ^ 64 = count) :
    (packedShift op w i).exec m = (.ok (), { m with
      registers := m.registers.setVector d (op.apply w (m.registers.vector d) count) }) := by
  rw [packedShift, exec_bind_of_ok (exec_operand hdst m), exec_bind_of_ok (exec_vectorIndex d m),
    exec_bind_of_ok (exec_operand ho m)]
  obtain ⟨c, size, rfl, rfl⟩ | ⟨v, hv, rfl⟩ := hcount
  · rw [← BitVec.toNat_setWidth]
    rfl
  · have hread := exec_readVector hv
    rw [← toNat_lane_qword]
    cases hv with
    | register s => exact exec_bind_of_ok hread _
    | memory hlinear haligned hbytes => exact exec_bind_of_ok hread _

end Exec

namespace Machine

open Exec

variable {m : Machine} {i : Instruction} {d : Fin 16} {c : Calculation} {src : Vector128}

/-- What an instruction calculates is what it leaves in its destination. -/
theorem completesWith_of_calculates (h : m.Calculates i c src) (hinto : i.IntoVector d) :
    m.CompletesWith i
      (m.registers.setVector d (c.apply (m.registers.vector d) src)) := by
  have hdst := exec_operand hinto.destination m
  have hindex := exec_vectorIndex d m
  cases h with
  | packed hmnemonic ho hv =>
    refine completesWith_of_exec hinto.unlocked (by rw [hmnemonic]; rfl) ?_
    rw [Exec.packed, exec_bind_of_ok hdst, exec_bind_of_ok hindex,
      exec_bind_of_ok (exec_operand ho m), exec_bind_of_ok (exec_readVector hv),
      exec_bind_of_ok (exec_vector d m), exec_setVector]
    rfl
  | shiftByVector hmnemonic ho hv =>
    exact completesWith_of_exec hinto.unlocked (by rw [hmnemonic]; rfl)
      (exec_packedShift hinto.destination ho (.inr ⟨_, hv, rfl⟩))
  | shift v hmnemonic ho =>
    exact completesWith_of_exec hinto.unlocked (by rw [hmnemonic]; rfl)
      (exec_packedShift hinto.destination ho (.inl ⟨_, _, rfl, rfl⟩))
  | shiftBytes v hmnemonic ho =>
    refine completesWith_of_exec hinto.unlocked (by rw [hmnemonic]; rfl) ?_
    rw [byteShift, exec_bind_of_ok hdst, exec_bind_of_ok hindex,
      exec_bind_of_ok (exec_constant ho m), exec_bind_of_ok (exec_vector d m), exec_setVector]
    rfl
  | shuffle hmnemonic ho hv hc =>
    refine completesWith_of_exec hinto.unlocked (by rw [hmnemonic]; rfl) ?_
    rw [Exec.shuffle, exec_bind_of_ok hdst, exec_bind_of_ok hindex,
      exec_bind_of_ok (exec_operand ho m), exec_bind_of_ok (exec_readVector hv),
      exec_bind_of_ok (exec_constant hc m), exec_bind_of_ok (exec_vector d m), exec_setVector]
    rfl

/-- A source that cannot be loaded stops an instruction. -/
theorem stopsWith_of_source {o : MemoryOperand} {f : Fault} (hinto : i.IntoVector d)
    (htakes : i.mnemonic.TakesVector) (ho : i.operands[1]? = some (.memory o))
    (hsource : (readVector (.memory o) true).exec m = (.error (.fault f), m)) :
    m.StopsWith i f := by
  have hdst := exec_operand hinto.destination m
  have hindex := exec_vectorIndex d m
  generalize hmnemonic : i.mnemonic = mnemonic at htakes
  cases htakes with
  | packed op =>
    refine stopsWith_of_exec hinto.unlocked (by rw [hmnemonic]; rfl) ?_ rfl
    rw [Exec.packed, exec_bind_of_ok hdst, exec_bind_of_ok hindex,
      exec_bind_of_ok (exec_operand ho m)]
    exact exec_bind_of_error hsource _
  | packedShift op w =>
    refine stopsWith_of_exec hinto.unlocked (by rw [hmnemonic]; rfl) ?_ rfl
    rw [Exec.packedShift, exec_bind_of_ok hdst, exec_bind_of_ok hindex,
      exec_bind_of_ok (exec_operand ho m)]
    exact exec_bind_of_error hsource _
  | shuffle op =>
    refine stopsWith_of_exec hinto.unlocked (by rw [hmnemonic]; rfl) ?_ rfl
    rw [Exec.shuffle, exec_bind_of_ok hdst, exec_bind_of_ok hindex,
      exec_bind_of_ok (exec_operand ho m)]
    exact exec_bind_of_error hsource _

/-- A source in memory that does not lie at a multiple of 16. -/
theorem stopsWith_of_misaligned {o : MemoryOperand} {a : Address} (hinto : i.IntoVector d)
    (htakes : i.mnemonic.TakesVector) (ho : i.operands[1]? = some (.memory o))
    (hlinear : Ends (linear o) m a m) (ha : a.toNat % 16 ≠ 0) :
    m.StopsWith i .generalProtection := by
  have haddress := exec_vectorAddress hlinear
  rw [if_neg ha] at haddress
  exact stopsWith_of_source hinto htakes ho (exec_bind_of_error haddress _)

/-- A source in memory that cannot be read. -/
theorem stopsWith_of_unreadable {o : MemoryOperand} {a : Address} {e : MemoryFault}
    (hinto : i.IntoVector d) (htakes : i.mnemonic.TakesVector)
    (ho : i.operands[1]? = some (.memory o)) (hlinear : Ends (linear o) m a m)
    (ha : a.toNat % 16 = 0) (hread : m.memory.read a 16 = .error e) :
    m.StopsWith i (.memory e) := by
  have haddress := exec_vectorAddress hlinear
  rw [if_pos ha] at haddress
  exact stopsWith_of_source hinto htakes ho
    ((exec_bind_of_ok haddress _).trans (exec_loadWord_of_error hread))

end Machine

/-! ### Threads -/

namespace Thread

/-- The machine on which a thread executes an instruction. -/
def machine (t : Thread) (m : Memory) : Machine where
  registers := t.registers
  memory := m
  retired := t.retired

variable {t : Thread} {m : Memory} {i : Instruction}

theorem execute_of_completesWith {r : RegisterFile} (h : (t.machine m).CompletesWith i r) :
    (t.execute m i).thread = t.retire { r with rip := i.next, rflags := r.flags } ∧
      (t.execute m i).memory = m ∧ (t.execute m i).result = .completed ∧
      (t.execute m i).writes = [] := by
  have hexecute : Machine.execute { registers := t.registers, memory := m, retired := t.retired }
      i = (.ok ({ t.machine m with registers := r }.complete i .next), m) := h
  rw [execute, hexecute]
  exact ⟨rfl, rfl, rfl, rfl⟩

/-- A fault that does not end a thread is queued, and nothing else happens. -/
theorem execute_of_stopsWith {f : Fault} (h : (t.machine m).StopsWith i f)
    (hf : f.isFatal = false) :
    t.execute m i =
      { thread := t.deliver ⟨f, i.address⟩, memory := m, result := .faulted f i.address } := by
  have hexecute : Machine.execute { registers := t.registers, memory := m, retired := t.retired }
      i = (.error (.fault f), m) := h
  rw [execute, hexecute]
  cases f with
  | decode error => nomatch hf
  | _ => rfl

/-- An instruction on vectors leaves in its destination the one vector whose lanes are those of its
calculation. If its source is in memory and does not lie at a multiple of 16, or cannot be read,
there is a fault in the queue and the thread and its memory are otherwise as they were. -/
theorem execute_vectors (t : Thread) (m : Memory) {i : Instruction} {d : Fin 16}
    (hinto : i.IntoVector d) :
    (∀ c src, (t.machine m).Calculates i c src →
      ∃ r, (∀ x, c.Gives (t.registers.vector d) src x ↔ x = r) ∧
        (t.execute m i).thread = t.retire
          { t.registers.setVector d r with rip := i.next, rflags := t.registers.flags } ∧
        (t.execute m i).memory = m ∧ (t.execute m i).result = .completed ∧
        (t.execute m i).writes = []) ∧
    ∀ o a, i.mnemonic.TakesVector → i.operands[1]? = some (.memory o) →
      Ends (Exec.linear o) (t.machine m) a (t.machine m) →
      (a.toNat % 16 ≠ 0 → t.execute m i =
        { thread := t.deliver ⟨.generalProtection, i.address⟩
          memory := m
          result := .faulted .generalProtection i.address }) ∧
      (a.toNat % 16 = 0 → ∀ e, m.read a 16 = .error e → t.execute m i =
        { thread := t.deliver ⟨.memory e, i.address⟩
          memory := m
          result := .faulted (.memory e) i.address }) := by
  refine ⟨fun c src h ↦ ?_, fun o a htakes ho hlinear ↦ ⟨fun ha ↦ ?_, fun ha e hread ↦ ?_⟩⟩
  · exact ⟨_, fun x ↦ c.gives_iff,
      execute_of_completesWith (Machine.completesWith_of_calculates h hinto)⟩
  · exact execute_of_stopsWith (Machine.stopsWith_of_misaligned hinto htakes ho hlinear ha) rfl
  · exact execute_of_stopsWith
      (Machine.stopsWith_of_unreadable hinto htakes ho hlinear ha hread) rfl

/-- An addition of bytes. -/
def addBytes (operands : List Operand) : Instruction where
  mnemonic := .packed .paddb
  operands
  prefixes := {}
  address := 0x400000
  length := 4
  flow := .next
  stackIncrement := 0
  elementSize := 0
  narrowAddress := false

/-- The lowest byte overflows and its neighbour has none of it. The same addition from memory beside
a multiple of 16 is a fault. -/
theorem execute_vectors_paddb :
    let start := (RegisterFile.start 0x400000 0).set Register.rax 0x600008
    let t : Thread := { tid := 1, registers := (start.setVector 0 0x01ff).setVector 1 0x0101 }
    let fromRegister := addBytes [.register (.xmm 0), .register (.xmm 1)]
    let fromMemory := addBytes [.register (.xmm 0),
      .memory { base := some (.general .qword Register.rax), size := 16 }]
    (decode .bits64 0x400000 [0x66, 0x0f, 0xfc, 0xc1]).toOption = some fromRegister ∧
      (t.execute {} fromRegister).thread.registers.vector 0 = 0x0200 ∧
      (decode .bits64 0x400000 [0x66, 0x0f, 0xfc, 0x00]).toOption = some fromMemory ∧
      (t.execute {} fromMemory).thread = t.deliver ⟨.generalProtection, 0x400000⟩ := by
  intro start t fromRegister fromMemory
  refine ⟨by decide +kernel, ?_, by decide +kernel, ?_⟩
  · obtain ⟨hcalculates, _⟩ := execute_vectors t {} (i := fromRegister) ⟨rfl, rfl⟩
    obtain ⟨r, hr, hthread, _⟩ := hcalculates _ _ (.packed rfl rfl (.register 1))
    have hvalue : 0x0200 = r := (hr _).mp (Calculation.gives_iff.mpr (by decide +kernel))
    rw [hthread, hvalue]
    rfl
  · obtain ⟨_, hmemory⟩ := execute_vectors t {} (i := fromMemory) ⟨rfl, rfl⟩
    have hlinear : Ends (Exec.linear { base := some (.general .qword Register.rax), size := 16 })
        (t.machine {}) 0x600008 (t.machine {}) := rfl
    rw [(hmemory _ _ (.packed .paddb) rfl hlinear).1 (by decide)]
    rfl

end Thread

end LongMode
