import LongMode.Machine.Execute

/-!
Threads. A thread has registers, a count of completed instructions, a bounded queue of faults that
wait for delivery, and, once it has ended, a reason that never changes.
-/

set_option autoImplicit false
set_option relaxedAutoImplicit false

namespace LongMode

/-- Why a thread ended. -/
inductive HaltReason where
  /-- It ended itself with a status. -/
  | exited (status : Int)
  /-- Another thread ended the process. -/
  | killed
  /-- The instruction at an address, of which the fetched bytes are kept, cannot be decoded. -/
  | decode (address : Address) (bytes : List UInt8) (error : DecodeError)
  /-- A fault that nobody handled. -/
  | fault (fault : Fault) (address : Address)
  deriving DecidableEq, Repr

/-- Why a thread cannot be run. -/
inductive SchedulingError where
  | threadAlreadyHalted
  | addressSpaceReleased
  deriving DecidableEq, Repr

namespace SchedulingError

/-- The name of a scheduling error in reports. -/
def name : SchedulingError → String
  | threadAlreadyHalted => "ThreadAlreadyHalted"
  | addressSpaceReleased => "AddressSpaceReleased"

/-- The wording of a scheduling error. -/
def message : SchedulingError → String
  | threadAlreadyHalted => "thread has already halted"
  | addressSpaceReleased => "the thread's address space has been released"

end SchedulingError

/-- A fault that waits for delivery. -/
structure PendingFault where
  /-- The fault. -/
  fault : Fault
  /-- The address of the instruction. -/
  address : Address
  deriving DecidableEq, Repr

/-- A call of the host: the number of the call and its arguments. -/
structure SyscallRequest where
  /-- The number of the call. -/
  number : BitVec 64
  /-- The six arguments. -/
  arguments : Vector (BitVec 64) 6
  deriving DecidableEq, Repr

/-- The call of the host that registers describe. -/
def RegisterFile.syscallRequest (r : RegisterFile) : SyscallRequest where
  number := r.get Register.rax
  arguments :=
    #v[r.get Register.rdi, r.get Register.rsi, r.get Register.rdx, r.get Register.r10,
      r.get Register.r8, r.get Register.r9]

/-- The answer of the host to a call. -/
inductive SyscallReturn where
  /-- A value. -/
  | ok (value : BitVec 64)
  /-- An error number, which the program sees negated. -/
  | error (number : Int)
  deriving DecidableEq, Repr

/-- The word that a program sees as the answer of the host. -/
def SyscallReturn.word : SyscallReturn → BitVec 64
  | .ok value => value
  | .error number => BitVec.ofInt 64 (-number)

/-- A thread. -/
structure Thread where
  /-- Its number. -/
  tid : Nat
  /-- Its registers. -/
  registers : RegisterFile
  /-- The faults that wait for delivery, oldest first. -/
  pending : List PendingFault := []
  /-- Why it ended, if it has. -/
  halted : Option HaltReason := none
  /-- How many instructions it completed. -/
  retired : Nat := 0
  deriving DecidableEq

namespace Thread

/-- The greatest number of faults that wait for delivery. -/
def maxPending : Nat := 64

/-- Whether a thread has ended. -/
def isHalted (t : Thread) : Bool :=
  t.halted.isSome

/-- End a thread. One that has ended keeps its reason. -/
def halt (t : Thread) (reason : HaltReason) : Except SchedulingError Thread :=
  if t.isHalted then .error .threadAlreadyHalted
  else .ok { t with halted := some reason }

/-- Put a fault at the end of the queue; a full queue drops it. -/
def deliver (t : Thread) (fault : PendingFault) : Thread :=
  if maxPending ≤ t.pending.length then t else { t with pending := t.pending ++ [fault] }

/-- Take the oldest fault from the queue. -/
def takeFault (t : Thread) : Option PendingFault × Thread :=
  (t.pending.head?, { t with pending := t.pending.tail })

/-- Commit a completed instruction. -/
def retire (t : Thread) (registers : RegisterFile) : Thread :=
  { t with registers, retired := t.retired + 1 }

/-- Hand a thread the answer of the host. -/
def completeSyscall (t : Thread) (answer : SyscallReturn) : Except SchedulingError Thread :=
  if t.isHalted then .error .threadAlreadyHalted
  else .ok { t with registers := t.registers.set Register.rax answer.word }

end Thread

end LongMode
