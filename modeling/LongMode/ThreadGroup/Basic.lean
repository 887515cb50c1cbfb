import LongMode.Elf.Load
import LongMode.Linux.Syscall
import LongMode.ThreadGroup.Settings
import LongMode.ThreadGroup.Signal

/-!
Processes. The threads of a process share its memory and its kernel; each has a core of its own. A
thread goes through rounds of three parts: it looks whether the process is ending, it runs a batch
of instructions, and it deals with what ended the batch. `ThreadGroup.advance` is one such part of
one thread, so that every order in which threads take turns is a list of thread numbers.

The first status that ends the process stays; `ThreadGroup.wait` gives it to whoever waits, unless
a thread panicked.
-/

set_option autoImplicit false
set_option relaxedAutoImplicit false

namespace LongMode

/-- Where a thread is in its round. -/
inductive Phase where
  /-- It looks whether the process is ending. -/
  | ready
  /-- It has seen that the process goes on, and runs a batch. -/
  | cleared
  /-- Its batch has ended, and it deals with the result. -/
  | stopped (result : StepResult)
  /-- It has no more rounds. -/
  | finished
  /-- A panic cut its batch short, and it has no more rounds. -/
  | panicked
  deriving DecidableEq, Repr

/-- A thread with its core. -/
structure Worker where
  /-- The thread. -/
  thread : Thread
  /-- The core. -/
  core : Core
  /-- Where the thread is in its round. -/
  phase : Phase := .ready

namespace Worker

/-- End the thread, unless it has ended. -/
def halt (w : Worker) (reason : HaltReason) : Worker :=
  { w with thread := (w.thread.halt reason).toOption.getD w.thread }

/-- Whether the thread came to its end. -/
def isFinished (w : Worker) : Bool :=
  w.phase = .finished

/-- Whether a panic cut the thread short. -/
def isPanicked (w : Worker) : Bool :=
  w.phase = .panicked

/-- Whether the thread has no more rounds. -/
def isOver (w : Worker) : Bool :=
  w.isFinished || w.isPanicked

end Worker

/-- What is left of a thread. -/
structure ThreadExit where
  /-- The number of the thread. -/
  tid : Nat
  /-- Why it ended. -/
  reason : HaltReason
  /-- How many instructions it completed. -/
  retired : Nat
  /-- Its registers. -/
  registers : RegisterFile
  deriving DecidableEq

/-- What is left of a thread; one that ended for no reason of its own counts as killed. -/
def Worker.exit (w : Worker) : ThreadExit where
  tid := w.thread.tid
  reason := w.thread.halted.getD .killed
  retired := w.thread.retired
  registers := w.thread.registers

/-- What is left of a process. -/
structure GroupExit where
  /-- The status of the process. -/
  status : Nat
  /-- The threads in the order in which they were started. -/
  threads : List ThreadExit
  deriving DecidableEq

/-- Why there is nothing to say of how a process ended. -/
inductive ProcessError where
  /-- A thread panicked. -/
  | threadPanicked (tid : Nat)
  deriving DecidableEq, Repr

/-- A process. -/
structure ThreadGroup where
  /-- Its settings. -/
  settings : Settings
  /-- Its memory. -/
  memory : Memory
  /-- What the kernel keeps for it. -/
  kernel : Linux.Kernel
  /-- Its threads in the order in which they were started. -/
  workers : List Worker := []
  /-- The status that ends it, if there is one. -/
  groupStatus : Option Nat := none
  /-- Whether its threads are to end. -/
  exiting : Bool := false

namespace ThreadGroup

/-- Start a thread; the number of the first one is 1. -/
def spawn (p : ThreadGroup) (registers : RegisterFile) : ThreadGroup :=
  { p with
    workers := p.workers ++
      [{ thread := { tid := p.workers.length + 1, registers }
         core := .ofConfig p.settings.core }] }

/-- End the process with a status. Only the first one counts. -/
def exitGroup (p : ThreadGroup) (status : Int) : ThreadGroup :=
  { p with
    groupStatus := some (p.groupStatus.getD (lowStatus status))
    exiting := true }

/-- Put a thread in its place. -/
def setWorker (p : ThreadGroup) (i : Nat) (w : Worker) : ThreadGroup :=
  { p with workers := p.workers.set i w }

/-! ### Rounds -/

/-- Look whether the process is ending. -/
def check (p : ThreadGroup) (w : Worker) : Worker :=
  if w.thread.isHalted then { w with phase := .finished }
  else if p.exiting then { w.halt .killed with phase := .finished }
  else { w with phase := .cleared }

/-- Run a batch of instructions. -/
def runBatch (p : ThreadGroup) (i : Nat) (w : Worker) : ThreadGroup :=
  match w.core.run w.thread (some p.memory) p.settings.batchSize with
  | .ok r =>
    { p with memory := r.memory }.setWorker i
      { thread := r.thread, core := r.core, phase := .stopped r.result }
  | .error _ => p.setWorker i { w with phase := .finished }

/-- Do a call of the host for a thread. -/
def serve (p : ThreadGroup) (i : Nat) (w : Worker) (r : SyscallRequest) : ThreadGroup :=
  let (disposition, c) :=
    Linux.Caller.call { kernel := p.kernel, memory := p.memory, thread := w.thread } r
  let p := { p with kernel := c.kernel, memory := c.memory }
  let w := { w with thread := c.thread }
  match disposition with
  | .answer value =>
    p.setWorker i { w with thread := (w.thread.completeSyscall value).toOption.getD w.thread }
  | .exit status => p.setWorker i (w.halt (.exited status))
  | .exitProcess status => (p.exitGroup status).setWorker i (w.halt (.exited status))

/-- Deal with a fault that nobody handles. -/
def fail (p : ThreadGroup) (i : Nat) (w : Worker) : ThreadGroup :=
  let (pending, thread) := w.thread.takeFault
  let w := { w with thread }
  match pending with
  | none => p.setWorker i w
  | some pending =>
    let p :=
      match p.settings.faultPolicy with
      | .killProcess => p.exitGroup pending.fault.signal.status
      | .haltThread => p
    p.setWorker i (w.halt (.fault pending.fault pending.address))

/-- Deal with what ended a batch. -/
def handle (p : ThreadGroup) (i : Nat) (w : Worker) : StepResult → ThreadGroup
  | .completed | .halted _ => p.setWorker i w
  | .syscall r => p.serve i w r
  | .faulted _ _ => p.fail i w
  | .panicked _ => p.setWorker i { w with phase := .panicked }

/-- Let a thread do the next part of its round. -/
def advance (p : ThreadGroup) (i : Nat) : ThreadGroup :=
  match p.workers[i]? with
  | none => p
  | some w =>
    match w.phase with
    | .ready => p.setWorker i (p.check w)
    | .cleared => p.runBatch i w
    | .stopped result => p.handle i { w with phase := .ready } result
    | .finished | .panicked => p

/-! ### Taking turns -/

/-- Let threads advance in a given order. -/
def advanceAll (p : ThreadGroup) (order : List Nat) : ThreadGroup :=
  order.foldl advance p

/-- Let every thread do a whole round, one after the other. -/
def round (p : ThreadGroup) : ThreadGroup :=
  p.advanceAll ((List.range p.workers.length).flatMap fun i => [i, i, i])

/-- Whether every thread came to its end. -/
def isFinished (p : ThreadGroup) : Bool :=
  p.workers.all Worker.isFinished

/-- Let the threads take turns for up to so many rounds. -/
def rounds (p : ThreadGroup) : (limit : Nat) → ThreadGroup
  | 0 => p
  | limit + 1 =>
    if p.workers.all Worker.isOver then p else rounds p.round limit

/-- What is left of a process: its status is the one that ended it, or else that of its first
thread, or else zero. -/
def exit (p : ThreadGroup) : GroupExit :=
  let threads := p.workers.map Worker.exit
  { status := (p.groupStatus <|> threads.head?.bind (·.reason.status?)).getD 0
    threads }

/-- What whoever waits for the threads, one after the other, is told of the process. -/
def wait (p : ThreadGroup) : Except ProcessError GroupExit :=
  match p.workers.find? Worker.isPanicked with
  | some w => .error (.threadPanicked w.thread.tid)
  | none => .ok p.exit

/-! ### Starting a program -/

/-- Load a program in memory of its own and start its first thread. The stack has the size that the
settings say; the kernel may depend on where the program is. -/
def ofImage (image : List UInt8) (o : Elf.LoadOptions) (s : Settings)
    (kernel : Elf.LoadedImage → Linux.Kernel) :
    Except Elf.LoadError (ThreadGroup × Elf.LoadedImage) :=
  let fresh : Memory := { space := { window := s.window } }
  match fresh.load image { o with stackSize := s.stackSize } with
  | (.ok loaded, memory) =>
    let p : ThreadGroup := { settings := s, memory, kernel := kernel loaded }
    .ok (p.spawn loaded.initialRegisters, loaded)
  | (.error e, _) => .error e

end ThreadGroup

end LongMode
