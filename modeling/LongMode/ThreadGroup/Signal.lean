import LongMode.Core.Thread

/-!
Signals and statuses. A fault that ends a thread counts as the signal that a kernel would raise for
it, and the status of a thread that a signal ended is 128 and the number of the signal.
-/

set_option autoImplicit false
set_option relaxedAutoImplicit false

namespace LongMode

/-- The signals that faults count as. -/
inductive Signal where
  | illegalInstruction
  | trap
  | arithmetic
  | segmentation
  deriving DecidableEq, Repr

namespace Signal

/-- The number of a signal. -/
def number : Signal → Nat
  | illegalInstruction => 4
  | trap => 5
  | arithmetic => 8
  | segmentation => 11

/-- The status of a thread or process that a signal ended. -/
def status (s : Signal) : Nat :=
  128 + s.number

end Signal

/-- The signal that a fault counts as. -/
def Fault.signal : Fault → Signal
  | memory _ | privileged | generalProtection => .segmentation
  | divideByZero | quotientOverflow => .arithmetic
  | breakpoint => .trap
  | undefinedInstruction | decode _ => .illegalInstruction

/-- The low eight bits of a status, as whoever waits for it sees it. -/
def lowStatus (status : Int) : Nat :=
  (status % 256).toNat

/-- The status of a thread that ended for a reason; none if another thread ended it. -/
def HaltReason.status? : HaltReason → Option Nat
  | exited status => some (lowStatus status)
  | fault f _ => some f.signal.status
  | decode _ _ _ => some Signal.illegalInstruction.status
  | killed => none

end LongMode
