import LongMode.Proofs.Machine.LockPrefix
import LongMode.Proofs.Machine.Observing

/-!
Instructions that pass control on in order. Such an instruction is a computation that either ends,
and then execution goes on behind it with the registers that it left (`Machine.CompletesWith`), or
stops at a fault, and then its changes of registers are dropped (`Machine.StopsWith`).
`Machine.execute_of_straight` reads both off the computation.
-/

set_option autoImplicit false
set_option relaxedAutoImplicit false

namespace LongMode

namespace Exec

variable {α : Type} {i : Instruction} {o : Operand} {w : Width}

theorem exec_operand {index : Nat} (h : i.operands[index]? = some o) (m : Machine) :
    (i.operand index).exec m = (.ok o, m) := by
  rw [Instruction.operand, h]
  rfl

theorem exec_width (h : o.width? = some w) (m : Machine) : o.width.exec m = (.ok w, m) := by
  rw [Operand.width, h]
  rfl

/-- A general register as an operand. -/
theorem ends_readOperand_general (w : Width) (m : Machine) (index : Fin 16) :
    Ends (readOperand (.register (.general w index)) w) m
      ((m.registers.get index).setWidth w.bits) m := by
  have hle : w.bits ≤ 64 := by cases w <;> decide
  change (Except.ok ((((m.registers.get index >>> 0).setWidth w.bits).setWidth 64).setWidth w.bits),
    m) = _
  rw [BitVec.ushiftRight_zero, BitVec.setWidth_setWidth_of_le _ hle, BitVec.setWidth_eq]

/-- A fault that is called for under a condition, and what comes after it otherwise. -/
theorem exec_unless {p : Prop} [Decidable p] {f : Fault} {k : Unit → Exec α} (m : Machine) :
    (if p then fault f >>= k else k ()).exec m =
      if p then (.error (.fault f), m) else (k ()).exec m := by
  split
  · rfl
  · rfl

end Exec

/-- What an instruction without a lock prefix does that passes control on in order. -/
theorem Instruction.effect_of_straight {i : Instruction} {c : Exec Unit}
    (hlock : i.prefixes.lock = false) (h : i.mnemonic.straight? i = some c) :
    i.effect = .ok (do c; return .next) := by
  rw [effect, hlock, Mnemonic.effect?_of_straight? h]
  rfl

namespace Machine

open Exec

variable {m m' : Machine} {i : Instruction} {effect : Exec Unit}

/-- An instruction completes with these registers, goes on behind itself and leaves memory alone. -/
def CompletesWith (m : Machine) (i : Instruction) (r : RegisterFile) : Prop :=
  m.execute i = (.ok ({ m with registers := r }.complete i .next), m.memory)

/-- An instruction stops at a fault and leaves memory alone. -/
def StopsWith (m : Machine) (i : Instruction) (f : Fault) : Prop :=
  m.execute i = (.error (.fault f), m.memory)

/-- Running an instruction without a lock prefix that goes on behind itself. -/
theorem execute_of_straight (hlock : i.prefixes.lock = false)
    (h : i.mnemonic.straight? i = some effect) (m : Machine) :
    m.execute i =
      ((effect.exec m).1.map fun _ ↦ (effect.exec m).2.complete i .next,
        (effect.exec m).2.memory) :=
  execute_of_effect (Instruction.effect_of_straight hlock h) m

/-- An instruction that changes nothing but registers. -/
theorem completesWith_of_exec (hlock : i.prefixes.lock = false)
    (h : i.mnemonic.straight? i = some effect) {r : RegisterFile}
    (hexec : effect.exec m = (.ok (), { m with registers := r })) : m.CompletesWith i r := by
  rw [CompletesWith, execute_of_straight hlock h, hexec]
  rfl

/-- An instruction that stops before it changes memory. -/
theorem stopsWith_of_exec (hlock : i.prefixes.lock = false)
    (h : i.mnemonic.straight? i = some effect) {f : Fault}
    (hexec : effect.exec m = (.error (.fault f), m')) (hmemory : m'.memory = m.memory) :
    m.StopsWith i f := by
  rw [StopsWith, execute_of_straight hlock h, hexec, hmemory]
  rfl

/-- An instruction that completes stops at no fault. -/
theorem CompletesWith.not_stopsWith {r : RegisterFile} {f : Fault} (h : m.CompletesWith i r) :
    ¬m.StopsWith i f := by
  intro hstops
  rw [StopsWith, h] at hstops
  cases hstops

/-- An instruction stops at one fault at most. -/
theorem StopsWith.eq {f f' : Fault} (h : m.StopsWith i f) (h' : m.StopsWith i f') : f = f' := by
  rw [StopsWith, h] at h'
  cases h'
  rfl

end Machine

end LongMode
