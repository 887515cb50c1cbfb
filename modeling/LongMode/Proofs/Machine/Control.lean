import LongMode.Machine.Execute
import LongMode.Proofs.Machine.Moves
import LongMode.Proofs.Machine.Straight

/-!
Instructions of control against what their encodings ask for.

A `ControlForm` is a branch, call, return, loop or end of a frame with everything that its encoding
says: near or far, over a distance or through a register or memory, the width of the counter or of
the frame. `ControlForm.effect` is what it does to registers and memory in 64-bit mode; a far
transfer is to be refused. The machine looks at the mnemonic alone, so that it carries out
`ControlForm.executed` (`Machine.hasEffect_of_carries`): a loop on 64 bits, the end of a frame of 64
bits, and a near transfer where the pointer is far. In every other case that is the same.
-/

set_option autoImplicit false
set_option relaxedAutoImplicit false

namespace LongMode

/-! ### Forms -/

/-- Where a branch or a call goes. -/
inductive Destination where
  /-- A distance behind the instruction. -/
  | relative (distance : BitVec 64)
  /-- Where a register points. -/
  | register (index : Fin 16)
  /-- Where a word in memory points, whose address has 32 bits if it is `narrow`. -/
  | memory (place : MemoryOperand) (narrow : Bool)
  deriving DecidableEq, Repr

/-- An instruction of control, as it is encoded. -/
inductive ControlForm where
  | jump (goal : Destination)
  | call (goal : Destination)
  /-- A jump through a pointer with a segment. -/
  | farJump (goal : Destination)
  /-- A call through a pointer with a segment. -/
  | farCall (goal : Destination)
  /-- A near return that releases bytes of arguments. -/
  | ret (release : BitVec 64)
  | loop (kind : LoopKind) (counter : Width) (distance : BitVec 64)
  /-- A branch if the counter is zero. -/
  | jumpIfZero (counter : Width) (distance : BitVec 64)
  /-- The end of a stack frame. -/
  | leave (frame : Width)
  deriving DecidableEq, Repr

/-! ### What they do -/

namespace RegisterFile

/-- All of a register that takes part in an address. -/
def addressPart (r : RegisterFile) : Option Register → BitVec 64
  | some (.general _ index) => r.get index
  | _ => 0

/-- The base address of a segment. -/
def baseOf (r : RegisterFile) : Segment → Address
  | .fs => r.fsBase
  | .gs => r.gsBase
  | _ => 0

/-- The address of a place in memory: a sum of 64 bits, or of 32 if it is `narrow`, behind the base
of its segment. -/
def addressOf (r : RegisterFile) (place : MemoryOperand) (narrow : Bool) : Address :=
  let sum := place.displacement + r.addressPart place.base +
    r.addressPart place.index * BitVec.ofNat 64 place.scale
  (if narrow then (sum.setWidth 32).setWidth 64 else sum) + r.baseOf place.segment

/-- The registers at an address where execution goes on. -/
def goTo (r : RegisterFile) (a : Address) : RegisterFile :=
  { r with rip := a, rflags := r.flags }

end RegisterFile

/-- A word of memory, or the fault of a load that is refused. -/
def Memory.loaded (m : Memory) (a : Address) (w : Width) : Except Fault (BitVec w.bits) :=
  match m.read a w.bytes with
  | .ok bytes => .ok (BitVec.ofNat w.bits (LittleEndian.toNat bytes))
  | .error e => .error (.memory e)

/-- Memory with a word stored in it, or the fault of a store that is refused. -/
def Memory.stored (m : Memory) (a : Address) (w : Width) (value : BitVec w.bits) :
    Except Fault Memory :=
  match m.write a (LittleEndian.ofNat w.bytes value.toNat) with
  | .ok m => .ok m
  | .error e => .error (.memory e)

/-- The address that a destination stands for, for an instruction in front of `next`. -/
def Destination.address (next : Address) (r : RegisterFile) (m : Memory) :
    Destination → Except Fault Address
  | relative distance => .ok (next + distance)
  | register index => .ok (r.get index)
  | memory place narrow => m.loaded (r.addressOf place narrow) .qword

namespace ControlForm

/-- What a form does to registers and memory, in front of `next`. A far transfer changes segments
and is refused. -/
def effect (next : Address) (r : RegisterFile) (m : Memory) :
    ControlForm → Except Fault (RegisterFile × Memory)
  | jump goal => do
    let a ← goal.address next r m
    return (r.goTo a, m)
  | call goal => do
    let a ← goal.address next r m
    let top := r.get Register.rsp - 8
    let m ← m.stored top .qword next
    return ((r.set Register.rsp top).goTo a, m)
  | farJump _ | farCall _ => .error (.decode .unsupported)
  | ret release => do
    let top := r.get Register.rsp
    let a ← m.loaded top .qword
    return ((r.set Register.rsp (top + 8 + release)).goTo a, m)
  | loop kind w distance =>
    let count := (r.get Register.rcx).setWidth w.bits - 1
    let taken := count != 0 && Exec.LoopKind.continues kind r.rflags
    .ok ((r.set Register.rcx (count.setWidth 64)).goTo (if taken then next + distance else next), m)
  | jumpIfZero w distance =>
    let count := (r.get Register.rcx).setWidth w.bits
    .ok (r.goTo (if count == 0 then next + distance else next), m)
  | leave w => do
    let frame := r.get Register.rbp
    let saved ← m.loaded frame w
    let r := r.set Register.rsp (frame + BitVec.ofNat 64 w.bytes)
    return ((r.setLow Register.rbp w (saved.setWidth 64)).goTo next, m)

/-- The form that is carried out in place of a form. -/
def executed : ControlForm → ControlForm
  | farJump goal => jump goal
  | farCall goal => call goal
  | loop kind _ distance => loop kind .qword distance
  | leave _ => leave .qword
  | form => form

/-- Whether a form is carried out as it is encoded: it is no far transfer, and its counter or its
frame has 64 bits where it is a loop or the end of a frame. -/
def isKept : ControlForm → Bool
  | farJump _ | farCall _ => false
  | loop _ w _ | leave w => w == .qword
  | _ => true

theorem executed_eq_self_iff (form : ControlForm) : form.executed = form ↔ form.isKept := by
  cases form with
  | loop kind w distance => cases w <;> simp [executed, isKept]
  | leave w => cases w <;> simp [executed, isKept]
  | _ => simp [executed, isKept]

end ControlForm

/-! ### Instructions that carry a form -/

/-- The registers of an address have its width, and a `narrow` address has a displacement of 32
bits. -/
structure MemoryOperand.Sized (place : MemoryOperand) (narrow : Bool) : Prop where
  base (r : Register) : place.base = some r →
    ∃ index, r = .general (if narrow then .dword else .qword) index
  index (r : Register) : place.index = some r →
    ∃ index, r = .general (if narrow then .dword else .qword) index
  displacement : narrow → (place.displacement.setWidth 32).setWidth 64 = place.displacement

/-- A sized operand has the address of a place in memory. -/
structure MemoryOperand.StandsFor (found place : MemoryOperand) (narrow : Bool) : Prop extends
    found.Sized narrow where
  address (r : RegisterFile) : r.addressOf found narrow = r.addressOf place narrow

namespace Instruction

/-- An instruction has as its only operand one that stands for a destination. -/
inductive Targets (i : Instruction) : Destination → Prop
  | relative {distance : BitVec 64} : i.operands = [.branch (i.next + distance)] →
    Targets i (.relative distance)
  | register {index : Fin 16} : i.operands = [.register (.general .qword index)] →
    Targets i (.register index)
  | memory {found place : MemoryOperand} {narrow : Bool} : i.operands = [.memory found] →
    found.StandsFor place narrow → Targets i (.memory place narrow)

/-- An instruction is of the mnemonic of a near form and has its operands. -/
inductive Carries (i : Instruction) : ControlForm → Prop
  | jump {goal : Destination} : i.mnemonic = .jmp → i.Targets goal → Carries i (.jump goal)
  | call {goal : Destination} : i.mnemonic = .call → i.Targets goal → Carries i (.call goal)
  | ret : i.mnemonic = .ret → i.operands = [] → Carries i (.ret 0)
  | retRelease {release : BitVec 16} {size : Nat} : i.mnemonic = .ret →
    i.operands = [.immediate (release.setWidth 64) size] →
    Carries i (.ret (release.setWidth 64))
  | loop {kind : LoopKind} {distance : BitVec 64} : i.mnemonic = .loop kind →
    i.Targets (.relative distance) → Carries i (.loop kind .qword distance)
  | jumpIfZero {wide : Bool} {distance : BitVec 64} : i.mnemonic = .jumpIfCounterZero wide →
    i.Targets (.relative distance) →
    Carries i (.jumpIfZero (if wide then .qword else .dword) distance)
  | leave : i.mnemonic = .leave → Carries i (.leave .qword)

end Instruction

namespace Exec

variable {m : Machine} {i : Instruction}

theorem exec_load_loaded (a : Address) (w : Width) (m : Machine) :
    (load a w).exec m = ((m.memory.loaded a w).mapError .fault, m) := by
  rw [Memory.loaded]
  cases hread : m.memory.read a w.bytes with
  | ok bytes => exact exec_bind_of_ok (exec_loadBytes_of_ok hread) _
  | error e => exact exec_bind_of_error (exec_loadBytes_of_error hread) _

/-- The part of an address that a register gives, as far as the address goes. -/
theorem exec_addressPart {part : Option Register} {w : Width}
    (h : ∀ r, part = some r → ∃ index, r = .general w index) (m : Machine) :
    (addressPart part).exec m =
      (.ok (((m.registers.addressPart part).setWidth w.bits).setWidth 64), m) := by
  cases part with
  | none =>
    change (Except.ok 0, m) = (Except.ok (((0 : BitVec 64).setWidth w.bits).setWidth 64), m)
    simp
  | some r =>
    obtain ⟨index, rfl⟩ := h r rfl
    change (Except.ok (((m.registers.get index >>> 0).setWidth w.bits).setWidth 64), m) = _
    rw [BitVec.ushiftRight_zero]
    rfl

theorem exec_segmentBase (segment : Segment) (m : Machine) :
    (segmentBase segment).exec m = (.ok (m.registers.baseOf segment), m) := by
  cases segment <;> rfl

/-- A sum modulo 2^32 does not depend on the upper halves of its parts. -/
theorem setWidth_sum (d base index scale : BitVec 64) :
    (d + (base.setWidth 32).setWidth 64 + (index.setWidth 32).setWidth 64 * scale).setWidth 32 =
      (d + base + index * scale).setWidth 32 := by
  have hle : 32 ≤ 64 := by decide
  simp only [BitVec.setWidth_add _ _ hle, BitVec.setWidth_mul _ _ hle,
    BitVec.setWidth_setWidth_of_le _ hle, BitVec.setWidth_eq]

theorem isHalf_eq {part : Option Register} {w : Width}
    (h : ∀ r, part = some r → ∃ index, r = .general w index) :
    isHalf part = (part.isSome && w == .dword) := by
  cases part with
  | none => rfl
  | some r =>
    obtain ⟨index, rfl⟩ := h r rfl
    cases w <;> rfl

/-- The address that a sized operand stands for. -/
theorem exec_linear {place : MemoryOperand} {narrow : Bool} (h : place.Sized narrow)
    (m : Machine) : (linear place).exec m = (.ok (m.registers.addressOf place narrow), m) := by
  have hbase := exec_addressPart h.base m
  have hindex := exec_addressPart h.index m
  have hoffset : (offset place).exec m = (.ok (m.registers.addressOf place narrow -
      m.registers.baseOf place.segment), m) := by
    rw [offset, exec_bind_of_ok hbase, exec_bind_of_ok hindex, exec_pure, isHalf_eq h.base,
      isHalf_eq h.index, RegisterFile.addressOf, BitVec.add_sub_cancel]
    congr 2
    cases narrow with
    | false =>
      have hwhole (v : BitVec 64) : (v.setWidth Width.qword.bits).setWidth 64 = v := by
        change (v.setWidth 64).setWidth 64 = v
        rw [BitVec.setWidth_eq, BitVec.setWidth_eq]
      simp [hwhole]
    | true =>
      have hsum := setWidth_sum place.displacement (m.registers.addressPart place.base)
        (m.registers.addressPart place.index) (BitVec.ofNat 64 place.scale)
      cases hsome : place.base.isSome || place.index.isSome with
      | true =>
        rw [if_pos (by simpa using hsome), if_pos rfl]
        exact congrArg (BitVec.setWidth 64) hsum
      | false =>
        -- nothing is added to the displacement, which has 32 bits already
        simp only [Bool.or_eq_false_iff, Option.isSome_eq_false_iff, Option.isNone_iff_eq_none]
          at hsome
        simp [hsome.1, hsome.2, RegisterFile.addressPart, h.displacement rfl]
  rw [linear, exec_bind_of_ok hoffset, exec_bind_of_ok (exec_segmentBase _ m), exec_pure,
    BitVec.sub_add_cancel]

/-- The target of a branch or a call. -/
theorem exec_target {goal : Destination} (h : i.Targets goal) (m : Machine) :
    (target i).exec m =
      ((goal.address i.next m.registers m.memory).mapError .fault, m) := by
  have hoperand {o : Operand} (ho : i.operands = [o]) : (i.operand 0).exec m = (.ok o, m) :=
    exec_operand (by rw [ho]; rfl) m
  cases h with
  | relative ho =>
    rw [target, exec_bind_of_ok (hoperand ho)]
    change (Except.ok (BitVec.setWidth 64 _), m) = _
    rw [BitVec.setWidth_eq]
    rfl
  | register ho =>
    rw [target, exec_bind_of_ok (hoperand ho)]
    refine (ends_readOperand_general .qword m _).trans ?_
    change (Except.ok (BitVec.setWidth 64 _), m) = _
    rw [BitVec.setWidth_eq]
    rfl
  | memory ho hstands =>
    rw [target, exec_bind_of_ok (hoperand ho), Destination.address, ← hstands.address]
    exact (exec_bind_of_ok (exec_linear hstands.toSized m) _).trans (exec_load_loaded _ .qword m)

theorem exec_branchIf (taken : Bool) {distance : BitVec 64} (h : i.Targets (.relative distance))
    (m : Machine) : (branchIf taken i).exec m =
      (.ok (if taken then .branch (i.next + distance) else .next), m) := by
  cases taken with
  | false => rfl
  | true => exact exec_bind_of_ok (exec_target h m) _

/-! ### The stack -/

theorem exec_store_of_ok {a : Address} {w : Width} {value : BitVec w.bits} {memory : Memory}
    (h : m.memory.stored a w value = .ok memory) : ∃ writes, (store a w value).exec m =
      (.ok (), { m with memory, writes }) := by
  rw [Memory.stored] at h
  cases hwrite : m.memory.write a (LittleEndian.ofNat w.bytes value.toNat) with
  | error e =>
    rw [hwrite] at h
    cases h
  | ok after =>
    rw [hwrite] at h
    cases h
    refine ⟨m.writes.push ⟨a, LittleEndian.ofNat w.bytes value.toNat⟩, ?_⟩
    rw [store, storeWord, storeBytes, exec_bind_of_ok (exec_memory m), hwrite]
    rfl

theorem exec_store_of_stored_error {a : Address} {w : Width} {value : BitVec w.bits} {f : Fault}
    (h : m.memory.stored a w value = .error f) :
    (store a w value).exec m = (.error (.fault f), m) := by
  rw [Memory.stored] at h
  cases hwrite : m.memory.write a (LittleEndian.ofNat w.bytes value.toNat) with
  | error e =>
    rw [hwrite] at h
    cases h
    rw [store, storeWord, storeBytes, exec_bind_of_ok (exec_memory m), hwrite]
    rfl
  | ok after =>
    rw [hwrite] at h
    cases h

theorem exec_pop_of_ok {w : Width} {v : BitVec w.bits}
    (h : m.memory.loaded (m.registers.get Register.rsp) w = .ok v) :
    (pop w).exec m = (.ok v, { m with
      registers := m.registers.set Register.rsp
        (m.registers.get Register.rsp + BitVec.ofNat 64 w.bytes) }) := by
  have hload := (exec_load_loaded (m.registers.get Register.rsp) w m)
  rw [h] at hload
  rw [pop, exec_bind_of_ok (exec_general Register.rsp m), exec_bind_of_ok hload,
    exec_bind_of_ok (exec_setGeneral ..), exec_pure]

theorem exec_pop_of_error {w : Width} {f : Fault}
    (h : m.memory.loaded (m.registers.get Register.rsp) w = .error f) :
    (pop w).exec m = (.error (.fault f), m) := by
  have hload := (exec_load_loaded (m.registers.get Register.rsp) w m)
  rw [h] at hload
  rw [pop, exec_bind_of_ok (exec_general Register.rsp m), exec_bind_of_error hload]

end Exec

namespace Machine

open Exec

variable {m : Machine} {i : Instruction} {form : ControlForm}

/-- An instruction comes out like an effect on registers and memory: it completes with them, or it
stops at a fault and leaves memory alone. -/
def HasEffect (m : Machine) (i : Instruction) :
    Except Fault (RegisterFile × Memory) → Prop
  | .ok (r, memory) => ∃ done, m.execute i = (.ok done, memory) ∧ done.registers = r ∧
      done.syscall = false
  | .error f => m.execute i = (.error (.fault f), m.memory)

/-- An instruction that has run to its end, and where execution goes on. -/
theorem hasEffect_of_ok {effect : Exec Transfer} (heffect : i.effect = .ok effect)
    {r : RegisterFile} {memory : Memory} (writes : Array MemoryWrite) {transfer : Transfer}
    {a : Address}
    (hexec : effect.exec m = (.ok transfer, { m with registers := r, memory, writes }))
    (ha : transfer = .branch a ∨ transfer = .next ∧ i.next = a) :
    m.HasEffect i (.ok (r.goTo a, memory)) := by
  have hexecute := execute_eq_outcome heffect m
  rw [outcome, hexec] at hexecute
  refine ⟨_, hexecute, ?_⟩
  obtain rfl | ⟨rfl, rfl⟩ := ha
  · exact ⟨rfl, rfl⟩
  · exact ⟨rfl, rfl⟩

/-- An instruction that branches if a condition is met, and changes registers before. -/
theorem hasEffect_of_branch {effect : Exec Transfer} (heffect : i.effect = .ok effect)
    {r : RegisterFile} {taken : Bool} {a : Address}
    (hexec : effect.exec m =
      (.ok (if taken then .branch a else .next), { m with registers := r })) :
    m.HasEffect i (.ok (r.goTo (if taken then a else i.next), m.memory)) := by
  refine hasEffect_of_ok heffect m.writes hexec ?_
  cases taken with
  | false => exact .inr ⟨rfl, rfl⟩
  | true => exact .inl rfl

theorem hasEffect_of_error {effect : Exec Transfer} (heffect : i.effect = .ok effect) {f : Fault}
    {m' : Machine} (hexec : effect.exec m = (.error (.fault f), m'))
    (hmemory : m'.memory = m.memory) : m.HasEffect i (.error f) := by
  have hexecute := execute_eq_outcome heffect m
  rw [outcome, hexec, hmemory] at hexecute
  exact hexecute

section Forms

variable {goal : Destination} {distance : BitVec 64}

theorem hasEffect_jump (heffect : i.effect = .ok (jump i)) (hgoal : i.Targets goal) :
    m.HasEffect i ((ControlForm.jump goal).effect i.next m.registers m.memory) := by
  have htarget := exec_target hgoal m
  rw [ControlForm.effect]
  cases haddress : goal.address i.next m.registers m.memory with
  | error f =>
    rw [haddress] at htarget
    exact hasEffect_of_error heffect (exec_bind_of_error htarget _) rfl
  | ok a =>
    rw [haddress] at htarget
    exact hasEffect_of_ok heffect m.writes (exec_bind_of_ok htarget _) (.inl rfl)

theorem hasEffect_call (heffect : i.effect = .ok (call i)) (hgoal : i.Targets goal) :
    m.HasEffect i ((ControlForm.call goal).effect i.next m.registers m.memory) := by
  have htarget := exec_target hgoal m
  rw [ControlForm.effect]
  cases haddress : goal.address i.next m.registers m.memory with
  | error f =>
    rw [haddress] at htarget
    exact hasEffect_of_error heffect (exec_bind_of_error htarget _) rfl
  | ok a =>
    rw [haddress] at htarget
    cases hstored : m.memory.stored (m.registers.get Register.rsp - 8) .qword i.next with
    | error f =>
      have hpush : (push .qword i.next).exec m = (.error (.fault f), m) :=
        (exec_bind_of_ok (exec_general Register.rsp m) _).trans
          (exec_bind_of_error (exec_store_of_stored_error hstored) _)
      change m.HasEffect i (m.memory.stored _ _ _ >>= _)
      rw [hstored]
      refine hasEffect_of_error heffect ?_ rfl
      exact (exec_bind_of_ok htarget _).trans (exec_bind_of_error hpush _)
    | ok memory =>
      obtain ⟨writes, hstore⟩ := exec_store_of_ok hstored
      have hpush : (push .qword i.next).exec m = (.ok (), { m with
          registers := m.registers.set Register.rsp (m.registers.get Register.rsp - 8)
          memory, writes }) :=
        (exec_bind_of_ok (exec_general Register.rsp m) _).trans
          ((exec_bind_of_ok hstore _).trans (exec_setGeneral ..))
      change m.HasEffect i (m.memory.stored _ _ _ >>= _)
      rw [hstored]
      refine hasEffect_of_ok heffect writes ?_ (.inl rfl)
      exact (exec_bind_of_ok htarget _).trans (exec_bind_of_ok hpush _)

/-- The addition of a released area to the stack pointer comes after the addition of the address. -/
theorem hasEffect_ret (heffect : i.effect = .ok (Exec.ret i)) {release : BitVec 64}
    (hrelease : i.operands = [] ∧ release = 0 ∨ ∃ (v : BitVec 16) (size : Nat),
      i.operands = [.immediate (v.setWidth 64) size] ∧ release = v.setWidth 64) :
    m.HasEffect i ((ControlForm.ret release).effect i.next m.registers m.memory) := by
  rw [ControlForm.effect]
  cases hloaded : m.memory.loaded (m.registers.get Register.rsp) .qword with
  | error f =>
    exact hasEffect_of_error heffect (exec_bind_of_error (exec_pop_of_error hloaded) _) rfl
  | ok a =>
    refine hasEffect_of_ok heffect m.writes
      ((exec_bind_of_ok (exec_pop_of_ok hloaded) _).trans ?_) (.inl rfl)
    obtain ⟨hoperands, rfl⟩ | ⟨v, size, hoperands, rfl⟩ := hrelease
    · rw [hoperands]
      change (Except.ok (Transfer.branch a), _) = _
      rw [show m.registers.get Register.rsp + 8 + 0 = m.registers.get Register.rsp + 8 from
        BitVec.add_zero _]
      rfl
    · have hv : ((v.setWidth 64).setWidth 16).setWidth 64 = v.setWidth 64 := by
        rw [BitVec.setWidth_setWidth_of_le v (by decide), BitVec.setWidth_eq]
      rw [hoperands]
      change (Except.ok (Transfer.branch a), { m with
        registers := (m.registers.set Register.rsp (m.registers.get Register.rsp + 8)).set
          Register.rsp ((m.registers.set Register.rsp (m.registers.get Register.rsp + 8)).get
            Register.rsp + ((v.setWidth 64).setWidth 16).setWidth 64) }) = _
      rw [RegisterFile.set_set, RegisterFile.get_set, if_pos rfl, hv]

theorem hasEffect_loop {kind : LoopKind} (heffect : i.effect = .ok (Exec.loop kind i))
    (hgoal : i.Targets (.relative distance)) :
    m.HasEffect i ((ControlForm.loop kind .qword distance).effect i.next m.registers m.memory) := by
  have hwhole (v : BitVec 64) : v.setWidth 64 = v := BitVec.setWidth_eq v
  let count := m.registers.get Register.rcx - 1
  let taken := count != 0 && LoopKind.continues kind m.registers.rflags
  let counted : Machine := { m with registers := m.registers.set Register.rcx count }
  have hexec : (Exec.loop kind i).exec m =
      (.ok (if taken then .branch (i.next + distance) else .next), counted) :=
    (exec_bind_of_ok (exec_general Register.rcx m) _).trans
      ((exec_bind_of_ok (exec_setGeneral ..) _).trans
        ((exec_bind_of_ok (exec_flags counted) _).trans (exec_branchIf taken hgoal counted)))
  have heffects : (ControlForm.loop kind .qword distance).effect i.next m.registers m.memory =
      .ok (counted.registers.goTo (if taken then i.next + distance else i.next), m.memory) := by
    simp only [ControlForm.effect, Width.bits, Width.bytes, hwhole, counted, taken, count]
    rfl
  rw [heffects]
  exact hasEffect_of_branch heffect hexec

theorem hasEffect_jumpIfZero {wide : Bool}
    (heffect : i.effect = .ok (Exec.jumpIfCounterZero wide i))
    (hgoal : i.Targets (.relative distance)) :
    m.HasEffect i ((ControlForm.jumpIfZero (if wide then .qword else .dword) distance).effect
      i.next m.registers m.memory) := by
  have hwhole (v : BitVec 64) : v.setWidth 64 = v := BitVec.setWidth_eq v
  let count := m.registers.get Register.rcx
  let taken := if wide then count == 0 else count.setWidth 32 == 0
  have hexec : (Exec.jumpIfCounterZero wide i).exec m =
      (.ok (if taken then .branch (i.next + distance) else .next), m) :=
    (exec_bind_of_ok (exec_general Register.rcx m) _).trans (exec_branchIf taken hgoal m)
  have heffects : (ControlForm.jumpIfZero (if wide then .qword else .dword) distance).effect
      i.next m.registers m.memory =
        .ok (m.registers.goTo (if taken then i.next + distance else i.next), m.memory) := by
    cases wide with
    | false => rfl
    | true =>
      simp only [ControlForm.effect, Width.bits, Width.bytes, if_true, taken, count]
      rfl
  rw [heffects]
  exact hasEffect_of_branch heffect hexec

theorem hasEffect_leave (heffect : i.effect = .ok (do Exec.leave; return .next)) :
    m.HasEffect i ((ControlForm.leave .qword).effect i.next m.registers m.memory) := by
  let framed : Machine := { m with
    registers := m.registers.set Register.rsp (m.registers.get Register.rbp) }
  have hgoalp : framed.registers.get Register.rsp = m.registers.get Register.rbp := by
    rw [RegisterFile.get_set, if_pos rfl]
  -- the rest of the instruction runs with the stack pointer at the frame
  have hframed : Exec.leave.exec m =
      (do setGeneral Register.rbp (← pop .qword) : Exec Unit).exec framed :=
    (exec_bind_of_ok (exec_general Register.rbp m) _).trans
      (exec_bind_of_ok (exec_setGeneral ..) _)
  rw [ControlForm.effect]
  cases hloaded : m.memory.loaded (m.registers.get Register.rbp) .qword with
  | error f =>
    have hpop : (pop .qword).exec framed = (.error (.fault f), framed) :=
      exec_pop_of_error (by rw [hgoalp]; exact hloaded)
    exact hasEffect_of_error heffect
      (exec_bind_of_error (hframed.trans (exec_bind_of_error hpop _)) _) rfl
  | ok saved =>
    have hpop := exec_pop_of_ok (m := framed) (by rw [hgoalp]; exact hloaded)
    have hexec := exec_bind_of_ok (hframed.trans ((exec_bind_of_ok hpop _).trans
      (exec_setGeneral ..))) fun _ ↦ (pure .next : Exec Transfer)
    refine hasEffect_of_ok heffect m.writes (hexec.trans ?_) (.inr ⟨rfl, rfl⟩)
    rw [hgoalp]
    change (_, { m with registers := ((m.registers.set _ _).set _ _).set _ _ }) = _
    rw [RegisterFile.set_set, RegisterFile.setLow_eq]
    congr 2

end Forms

/-- An instruction that carries a form has its effect. -/
theorem hasEffect_of_carries (hlock : i.prefixes.lock = false) (h : i.Carries form) :
    m.HasEffect i (form.effect i.next m.registers m.memory) := by
  have heffect {mnemonic : Mnemonic} {effect : Exec Transfer} (hmnemonic : i.mnemonic = mnemonic)
      (h : mnemonic.effect? i = some effect) : i.effect = .ok effect := by
    rw [Instruction.effect, hlock, hmnemonic, h]
    rfl
  cases h with
  | jump hmnemonic hgoal => exact hasEffect_jump (heffect hmnemonic rfl) hgoal
  | call hmnemonic hgoal => exact hasEffect_call (heffect hmnemonic rfl) hgoal
  | ret hmnemonic ho => exact hasEffect_ret (heffect hmnemonic rfl) (.inl ⟨ho, rfl⟩)
  | retRelease hmnemonic ho =>
    exact hasEffect_ret (heffect hmnemonic rfl) (.inr ⟨_, _, ho, rfl⟩)
  | loop hmnemonic hgoal => exact hasEffect_loop (heffect hmnemonic rfl) hgoal
  | jumpIfZero hmnemonic hgoal => exact hasEffect_jumpIfZero (heffect hmnemonic rfl) hgoal
  | leave hmnemonic => exact hasEffect_leave (heffect hmnemonic rfl)

end Machine

end LongMode
