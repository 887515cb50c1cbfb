import LongMode.Decode.Instruction
import LongMode.Memory.Fault

/-!
Why an instruction did not complete. A decode fault ends the thread; every other fault is reported
and leaves the thread as it was before the instruction. A panic is no fault: it is the program that
runs the thread that cannot go on, and nothing is reported to the thread.
-/

set_option autoImplicit false
set_option relaxedAutoImplicit false

namespace LongMode

/-- Why an instruction did not complete. -/
inductive Fault where
  /-- The instruction cannot be decoded or is not executed. -/
  | decode (error : DecodeError)
  /-- An access to memory was refused. -/
  | memory (fault : MemoryFault)
  /-- A division by zero. -/
  | divideByZero
  /-- The quotient of a division does not fit its register. -/
  | quotientOverflow
  /-- An instruction that only the supervisor may execute. -/
  | privileged
  /-- A misaligned vector operand, or a reserved bit of the vector control word. -/
  | generalProtection
  /-- A breakpoint instruction. -/
  | breakpoint
  /-- An instruction that is defined to be undefined. -/
  | undefinedInstruction
  deriving DecidableEq, Repr

namespace Fault

/-- Whether a fault ends the thread. -/
def isFatal : Fault → Bool
  | decode _ => true
  | _ => false

/-- The name of a fault in reports. -/
def name : Fault → String
  | decode error => error.name
  | memory fault => fault.name
  | divideByZero => "DivideByZero"
  | quotientOverflow => "Overflow"
  | privileged => "Privileged"
  | generalProtection => "GeneralProtection"
  | breakpoint => "Breakpoint"
  | undefinedInstruction => "UndefinedInstruction"

/-- The wording of a fault. -/
def message : Fault → String
  | decode error => "decode failure: " ++ error.message
  | memory fault => fault.message
  | divideByZero => "divide by zero"
  | quotientOverflow => "quotient does not fit the destination"
  | privileged => "privileged instruction"
  | generalProtection => "general protection fault"
  | breakpoint => "breakpoint"
  | undefinedInstruction => "undefined instruction"

end Fault

/-- Why the program that runs a thread cannot go on. -/
inductive Panic where
  /-- A shift by as many bits as the shifted word has, or more. -/
  | shiftOverflow
  /-- An access to a place that a row of `length` places does not have. -/
  | outOfRow (place length : Nat)
  deriving DecidableEq, Repr

/-- Why a computation on the machine stopped. -/
inductive Stop where
  /-- The instruction faulted. -/
  | fault (fault : Fault)
  /-- The program that runs the instruction cannot go on. -/
  | panic (panic : Panic)
  deriving DecidableEq, Repr

end LongMode
