import LongMode.Linux.Files
import LongMode.Linux.Mapping

/-!
The calls that a process can make. `Syscall.ofNumber?` names the call of a number, `Syscall.perform`
does it, and `Caller.call` answers a request: with a word, with an error number, or not at all, when
the thread or the process ends.
-/

set_option autoImplicit false
set_option relaxedAutoImplicit false

namespace LongMode.Linux

/-- The calls that are known. -/
inductive Syscall where
  | read
  | write
  | openFile
  | close
  | reposition
  | mapPages
  | protectPages
  | unmapPages
  | moveBreak
  | writeGathered
  | getProcess
  | exit
  | signalProcess
  | describeSystem
  | getUser
  | getGroup
  | getEffectiveUser
  | getEffectiveGroup
  | segmentBase
  | getThread
  | signalThread
  | setThreadAddress
  | exitProcess
  | signalThreadOfProcess
  | openAt
  deriving DecidableEq, Repr

/-- The call of a number. -/
def Syscall.ofNumber? : Nat → Option Syscall
  | 0 => some read
  | 1 => some write
  | 2 => some openFile
  | 3 => some close
  | 8 => some reposition
  | 9 => some mapPages
  | 10 => some protectPages
  | 11 => some unmapPages
  | 12 => some moveBreak
  | 20 => some writeGathered
  | 39 => some getProcess
  | 60 => some exit
  | 62 => some signalProcess
  | 63 => some describeSystem
  | 102 => some getUser
  | 104 => some getGroup
  | 107 => some getEffectiveUser
  | 108 => some getEffectiveGroup
  | 158 => some segmentBase
  | 186 => some getThread
  | 200 => some signalThread
  | 218 => some setThreadAddress
  | 231 => some exitProcess
  | 234 => some signalThreadOfProcess
  | 257 => some openAt
  | _ => none

/-- What follows a call. -/
inductive Disposition where
  /-- The thread goes on with an answer. -/
  | answer (value : SyscallReturn)
  /-- The thread ends. -/
  | exit (status : Int)
  /-- The process ends. -/
  | exitProcess (status : Int)
  deriving DecidableEq, Repr

/-- What a call comes to when it does not fail. -/
inductive Outcome where
  /-- A word for the thread. -/
  | value (w : Word)
  /-- The end of the thread. -/
  | exit (status : Int)
  /-- The end of the process. -/
  | exitProcess (status : Int)
  deriving DecidableEq, Repr

/-- What follows an outcome or an error number. -/
def Disposition.ofResult : Except Errno Outcome → Disposition
  | .ok (.value w) => answer (.ok w)
  | .ok (.exit status) => exit status
  | .ok (.exitProcess status) => exitProcess status
  | .error e => answer (.error e.number)

/-- The status in the low half of a word. -/
def statusOf (w : Word) : Int :=
  (w.setWidth 32).toInt

namespace Call

/-! ### Identity -/

/-- The texts that describe the system: its name, the name of the machine in the network, release,
version, processor and domain. -/
def systemTexts : List String :=
  ["Linux", "xemu", "6.1.0", "#1 SMP", "x86_64", "(none)"]

/-- The number of bytes that each text that describes the system takes. -/
def systemTextLength : Nat := 65

/-- A text filled up with zeros. -/
def padded (length : Nat) (text : String) : List UInt8 :=
  let bytes := Text.Utf8.encode text
  bytes ++ List.replicate (length - bytes.length) 0

/-- Store the texts that describe the system. -/
def describeSystem (buffer : Address) : Call Word := do
  store buffer (systemTexts.flatMap (padded systemTextLength))
  return 0

/-! ### Segment bases -/

/-- Segment bases are below this address. -/
def segmentBaseLimit : Nat := 0x800000000000

/-- Change the registers of the calling thread. -/
def modifyRegisters (f : RegisterFile → RegisterFile) : Call Unit :=
  modify fun c => { c with thread := { c.thread with registers := f c.thread.registers } }

/-- Store a word. -/
def storeWord (a : Address) (w : Word) : Call Unit :=
  store a (LittleEndian.ofNat 8 w.toNat)

/-- Set the base of a segment, or store it at an address. -/
def segmentBase (code : Word) (a : Address) : Call Word := do
  match code.toNat with
  | 0x1001 =>
    if segmentBaseLimit ≤ a.toNat then throw .eperm
    modifyRegisters fun r => { r with gsBase := a }
    return 0
  | 0x1002 =>
    if segmentBaseLimit ≤ a.toNat then throw .eperm
    modifyRegisters fun r => { r with fsBase := a }
    return 0
  | 0x1003 =>
    storeWord a (← get).thread.registers.fsBase
    return 0
  | 0x1004 =>
    storeWord a (← get).thread.registers.gsBase
    return 0
  | _ => throw .einval

/-! ### Signals -/

/-- The greatest number of a signal. -/
def maxSignal : Nat := 64

/-- The signals that a process ignores if it does not handle them: of an ended child, to go on, of
urgent input and of a changed window. -/
def ignoredSignals : List Nat := [17, 18, 23, 28]

/-- Send a signal to a process: this one, which zero stands for too. No signal is handled, so one
that is not ignored ends the process. -/
def signal (process number : Word) : Call Outcome := do
  if maxSignal < number.toNat then throw .einval
  if process ≠ 0 ∧ process.toNat ≠ (← kernel).process then throw .esrch
  if number = 0 ∨ number.toNat ∈ ignoredSignals then return .value 0
  return .exitProcess (128 + number.toNat)

/-- Refuse a number that cannot be one of a thread or process. -/
def requirePositive (w : Word) : Call Unit := do
  if w.toInt ≤ 0 then throw .einval

end Call

/-- Do a call. -/
def Syscall.perform (s : Syscall) (a : Vector Word 6) : Call Outcome :=
  let answer (c : Call Word) : Call Outcome := return .value (← c)
  let number (n : Nat) : Outcome := .value (BitVec.ofNat 64 n)
  match s with
  | read => answer (Call.read a[0] a[1] a[2])
  | write => answer (Call.write a[0] a[1] a[2])
  | openFile => answer (Call.openAt Call.workingDirectory a[0] a[1])
  | openAt => answer (Call.openAt a[0] a[1] a[2])
  | reposition => answer (Call.reposition a[0] a[1] a[2])
  | close => answer (Call.close a[0])
  | mapPages => answer (Call.mapPages a[0] a[1] a[2] a[3] a[4])
  | protectPages => answer (Call.protectPages a[0] a[1] a[2])
  | unmapPages => answer (Call.unmapPages a[0] a[1])
  | moveBreak => answer (Call.moveBreak a[0])
  | writeGathered => answer (Call.writeGathered a[0] a[1] a[2])
  | getProcess => return number (← Call.kernel).process
  | getThread | setThreadAddress => return number (← get).thread.tid
  | getUser | getEffectiveUser => return number (← Call.kernel).user
  | getGroup | getEffectiveGroup => return number (← Call.kernel).group
  | describeSystem => answer (Call.describeSystem a[0])
  | segmentBase => answer (Call.segmentBase a[0] a[1])
  | exit => return .exit (statusOf a[0])
  | exitProcess => return .exitProcess (statusOf a[0])
  | signalProcess => Call.signal a[0] a[1]
  | signalThread => do
    Call.requirePositive a[0]
    Call.signal (BitVec.ofNat 64 (← Call.kernel).process) a[1]
  | signalThreadOfProcess => do
    Call.requirePositive a[0]
    Call.requirePositive a[1]
    Call.signal a[0] a[2]

/-- Do the call of a request; a number that names none fails. -/
def Call.ofRequest (r : SyscallRequest) : Call Outcome :=
  match Syscall.ofNumber? r.number.toNat with
  | some s => s.perform r.arguments
  | none => throw .enosys

/-- Answer a request: what follows, and the caller after it. -/
def Caller.call (c : Caller) (r : SyscallRequest) : Disposition × Caller :=
  let (result, c) := (Call.ofRequest r).run.run c
  (.ofResult result, c)

end LongMode.Linux
