import LongMode.Machine.Basic

/-!
Instructions that pass control on: branches, calls, returns, loops and the call of the host. The
target is known before anything changes, so an indirect call whose target cannot be loaded pushes
nothing.
-/

set_option autoImplicit false
set_option relaxedAutoImplicit false

namespace LongMode.Exec

/-- The target of a branch: given by the encoding, or read from a register or memory. -/
def target (i : Instruction) : Exec Address := do
  match ← i.operand 0 with
  | .implicit => unsupported
  | .immediate _ _ => unsupported
  | o => readOperand o .qword

/-- Branch if a condition is met. -/
def branchIf (taken : Bool) (i : Instruction) : Exec Transfer := do
  if taken then return .branch (← target i) else return .next

/-- An unconditional branch. -/
def jump (i : Instruction) : Exec Transfer :=
  branchIf true i

/-- A branch on flags. -/
def jumpOn (c : Condition) (i : Instruction) : Exec Transfer := do
  branchIf (c.holds (← flags)) i

/-- A call. -/
def call (i : Instruction) : Exec Transfer := do
  let a ← target i
  push .qword i.next
  return .branch a

/-- A near return, which may release bytes of arguments. -/
def ret (i : Instruction) : Exec Transfer := do
  let a ← pop .qword
  match i.operands.head? with
  | some (.immediate value _) =>
    setGeneral Register.rsp ((← general Register.rsp) + (value.setWidth 16).setWidth 64)
  | _ => pure ()
  return .branch a

/-- Whether a loop goes on by its condition on the zero flag. -/
def LoopKind.continues (kind : LoopKind) (f : Flags) : Bool :=
  match kind with
  | .always => true
  | .whileEqual => f.get .zero
  | .whileNotEqual => !f.get .zero

/-- A counted loop. -/
def loop (kind : LoopKind) (i : Instruction) : Exec Transfer := do
  let count := (← general Register.rcx) - 1
  setGeneral Register.rcx count
  branchIf (count != 0 && LoopKind.continues kind (← flags)) i

/-- A branch on a zero counter of 64 or 32 bits. -/
def jumpIfCounterZero (wide : Bool) (i : Instruction) : Exec Transfer := do
  let count ← general Register.rcx
  branchIf (if wide then count == 0 else count.setWidth 32 == 0) i

/-- The call of the host: the return address and the flags are saved in registers. -/
def syscall (i : Instruction) : Exec Transfer := do
  setGeneral Register.rcx i.next
  setGeneral Register.r11 (← registers).flags
  return .syscall

end LongMode.Exec
