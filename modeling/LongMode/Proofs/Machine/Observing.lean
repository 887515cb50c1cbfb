import LongMode.Proofs.Machine.Discipline
import LongMode.Proofs.Outcomes

/-!
Computations that leave the machine alone: reading registers, addresses, memory and operands changes
nothing, whether it succeeds or stops at a fault. So what is read first is still there when
something else has been read (`Exec.Observing.of_ends`).
-/

set_option autoImplicit false
set_option relaxedAutoImplicit false

namespace LongMode

namespace Exec

variable {α β : Type}

/-- It leaves the machine alone. -/
def Observing (c : Exec α) : Prop :=
  ∀ m : Machine, LongMode.Keeps Eq c m

theorem Observing.of_ends {c : Exec α} {m m' : Machine} {v : α} (h : Observing c)
    (hends : Ends c m v m') : m = m' :=
  (h m).of_ends hends

theorem Observing.pure (v : α) : Observing (Pure.pure v : Exec α) := fun _ ↦
  keeps_pure v

theorem Observing.bind {c : Exec α} {f : α → Exec β} (hc : Observing c)
    (hf : ∀ v, Observing (f v)) : Observing (c >>= f) := fun m ↦
  (hc m).andThen hf

/-! ### Faults and registers -/

theorem observing_fault (f : Fault) : Observing (fault f : Exec α) := fun _ ↦
  keeps_throw (Stop.fault f)

theorem observing_orUnsupported (o : Option α) : Observing (orUnsupported o) := by
  cases o with
  | none => exact observing_fault _
  | some v => exact .pure v

theorem observing_ofMemory (e : Except MemoryFault α) : Observing (ofMemory e) := by
  cases e with
  | error f => exact observing_fault _
  | ok v => exact .pure v

theorem observing_get : Observing (get : Exec Machine) := fun _ ↦
  keeps_get

theorem observing_registers : Observing registers :=
  .bind observing_get fun _ ↦ .pure _

theorem observing_readRegister (r : Register) : Observing (readRegister r) :=
  .bind observing_registers fun _ ↦ observing_orUnsupported _

/-! ### Addresses and memory -/

theorem observing_addressPart (r : Option Register) : Observing (addressPart r) := by
  cases r with
  | none => exact .pure 0
  | some r => exact observing_readRegister r

theorem observing_offset (o : MemoryOperand) : Observing (offset o) :=
  .bind (observing_addressPart _) fun _ ↦ .bind (observing_addressPart _) fun _ ↦ .pure _

theorem observing_segmentBase (s : Segment) : Observing (segmentBase s) := by
  cases s with
  | fs => exact .bind observing_registers fun _ ↦ .pure _
  | gs => exact .bind observing_registers fun _ ↦ .pure _
  | es => exact .pure 0
  | cs => exact .pure 0
  | ss => exact .pure 0
  | ds => exact .pure 0

theorem observing_linear (o : MemoryOperand) : Observing (linear o) :=
  .bind (observing_offset o) fun _ ↦ .bind (observing_segmentBase _) fun _ ↦ .pure _

theorem observing_memory : Observing memory :=
  .bind observing_get fun _ ↦ .pure _

theorem observing_loadBytes (a : Address) (count : Nat) : Observing (loadBytes a count) :=
  .bind observing_memory fun _ ↦ observing_ofMemory _

theorem observing_load (a : Address) (w : Width) : Observing (load a w) :=
  .bind (observing_loadBytes a w.bytes) fun _ ↦ .pure _

/-! ### Operands -/

theorem observing_readOperand (o : Operand) (w : Width) : Observing (readOperand o w) := by
  cases o with
  | register r => exact .bind (observing_readRegister r) fun _ ↦ .pure _
  | immediate value size => exact .pure _
  | memory m => exact .bind (observing_linear m) fun a ↦ observing_load a w
  | branch target => exact .pure _
  | implicit => exact observing_fault _

end Exec

end LongMode
