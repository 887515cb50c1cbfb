import LongMode.Core.DecodeCache
import LongMode.Core.Thread
import LongMode.Core.Trace
import LongMode.Core.BlockTable

/-!
Cores. A core fetches, decodes and executes the instructions of a thread; its decode cache and its
table of blocks change how fast it does so, not what it does. `Core.step` is one instruction,
`Core.run` as many as a budget allows, up to the first that does not simply complete.
-/

set_option autoImplicit false
set_option relaxedAutoImplicit false

namespace LongMode

/-- How a core is set up. -/
structure CoreConfig where
  /-- Instructions that the decode cache holds at least; zero for no cache. -/
  cacheEntries : Nat := 1024
  /-- Entries that make an address hot; none for no blocks. -/
  hotThreshold : Option Nat := none
  /-- The greatest number of instructions in a block. -/
  maxBlockLength : Nat := 64
  /-- The addresses that evictions from the table of blocks drop; the order of the table leaves them
  open. -/
  victims : List Nat := []
  deriving DecidableEq, Repr

namespace CoreConfig

/-- Neither cache nor blocks. -/
def interpreterOnly : CoreConfig :=
  { cacheEntries := 0 }

/-- With blocks at addresses that were entered `threshold` times, at least once. -/
def withBlocks (c : CoreConfig) (threshold : Nat) : CoreConfig :=
  { c with hotThreshold := some (max threshold 1) }

end CoreConfig

/-- A core. -/
structure Core where
  /-- The decode cache, if there is one. -/
  cache : Option DecodeCache := none
  /-- The table of blocks, if there is one. -/
  blocks : Option BlockTable := none
  /-- Whether completed instructions are described. -/
  tracing : Bool := false

/-- What became of one instruction. -/
inductive StepResult where
  /-- It completed. -/
  | completed
  /-- It faulted and changed nothing. -/
  | faulted (fault : Fault) (address : Address)
  /-- It completed and calls the host. -/
  | syscall (request : SyscallRequest)
  /-- The thread has ended. -/
  | halted (reason : HaltReason)
  /-- The program that runs the thread cannot go on. -/
  | panicked (panic : Panic)
  deriving DecidableEq, Repr

/-- Why there is no instruction to execute. -/
inductive FetchFailure where
  /-- A byte cannot be fetched. -/
  | fault (fault : MemoryFault)
  /-- The fetched bytes cannot be decoded. -/
  | decode (error : DecodeError) (bytes : List UInt8)
  /-- The decode cache has no place for the address. -/
  | panic (panic : Panic)
  deriving DecidableEq, Repr

/-- A thread and its memory after an attempt at one instruction. -/
structure Execution where
  /-- The thread. -/
  thread : Thread
  /-- The memory. -/
  memory : Memory
  /-- What became of the instruction. -/
  result : StepResult
  /-- The stores of the instruction. -/
  writes : List MemoryWrite := []
  /-- The description of the instruction, if it completed. -/
  event : Option TraceEvent := none

namespace Thread

/-- The executable bytes at an address, as far as they matter for an instruction. -/
def codeBytes (m : Memory) (a : Address) : List UInt8 :=
  match m.fetch a Decode.maxLength with
  | .ok (bytes, _) => bytes
  | .error _ => []

/-- End a thread because an instruction cannot be decoded. -/
def haltOnDecode (t : Thread) (m : Memory) (a : Address) (bytes : List UInt8)
    (error : DecodeError) : Execution :=
  let reason := HaltReason.decode a bytes error
  { thread := (t.halt reason).toOption.getD t, memory := m, result := .halted reason }

/-- Report a fault: a decode fault ends the thread, every other one is queued. -/
def raise (t : Thread) (m : Memory) (fault : Fault) (a : Address) : Execution :=
  match fault with
  | .decode error => t.haltOnDecode m a (codeBytes m a) error
  | _ => { thread := t.deliver ⟨fault, a⟩, memory := m, result := .faulted fault a }

/-- Give up an instruction at a panic. Of the thread nothing has changed by then. -/
def panic (t : Thread) (m : Memory) (p : Panic) : Execution :=
  { thread := t, memory := m, result := .panicked p }

/-- Take up that an instruction stopped. -/
def abandon (t : Thread) (m : Memory) (stop : Stop) (a : Address) : Execution :=
  match stop with
  | .fault fault => t.raise m fault a
  | .panic p => t.panic m p

/-- Execute a decoded instruction. -/
def execute (t : Thread) (m : Memory) (i : Instruction) : Execution :=
  match Machine.execute { registers := t.registers, memory := m, retired := t.retired } i with
  | (.error stop, after) => t.abandon after stop i.address
  | (.ok done, after) =>
    let next := t.retire done.registers
    { thread := next
      memory := after
      result := if done.syscall then .syscall done.registers.syscallRequest else .completed
      writes := done.writes.toList
      event := some
        { tid := t.tid
          sequence := t.retired
          instruction := i
          changes := t.registers.changes done.registers
          writes := done.writes.toList } }

end Thread

namespace Core

/-- A core with empty tables. -/
def ofConfig (c : CoreConfig) : Core where
  cache := if c.cacheEntries = 0 then none else some (.ofEntries c.cacheEntries)
  blocks := c.hotThreshold.map fun threshold =>
    .ofLimits threshold c.maxBlockLength c.victims

/-- Forget cached instructions and blocks; the counts stay. -/
def flush (c : Core) : Core :=
  { c with
    cache := c.cache.map DecodeCache.clear
    blocks := c.blocks.map BlockTable.clear }

/-- The counts of the decode cache. -/
def cacheStats (c : Core) : CacheStats :=
  (c.cache.map DecodeCache.stats).getD {}

/-- The counts of the table of blocks. -/
def blockStats (c : Core) : BlockStats :=
  (c.blocks.map BlockTable.stats).getD {}

/-- Ask the decode cache, if there is one. -/
def lookup (c : Core) (m : Memory) (a : Address) : Except Panic (Option Instruction × Core) :=
  match c.cache with
  | none => .ok (none, c)
  | some cache => do
    let (found, cache) ← cache.lookup m a
    return (found, { c with cache := some cache })

/-- Remember an instruction in the decode cache, if there is one. -/
def remember (c : Core) (stamp : CodeStamp) (i : Instruction) : Except Panic Core :=
  match c.cache with
  | none => .ok c
  | some cache => do
    let cache ← cache.insert stamp i
    return { c with cache := some cache }

/-- Why a window that holds no instruction holds none. A short window that ends inside an
instruction is a fault at the first byte that cannot be fetched. -/
def failure (m : Memory) (a : Address) (window : List UInt8) (error : DecodeError) : FetchFailure :=
  if error = .truncated ∧ window.length < Decode.maxLength then
    match m.fetch (a + BitVec.ofNat 64 window.length) 1 with
    | .error fault => .fault fault
    | .ok _ => .decode error window
  else .decode error window

/-- Remember an instruction that was decoded, and go on with it. -/
def keep (c : Core) (stamp : CodeStamp) (i : Instruction) :
    Except FetchFailure Instruction × Core :=
  match c.remember stamp i with
  | .ok c => (.ok i, c)
  | .error p => (.error (.panic p), c)

/-- Fetch and decode the instruction at an address. -/
def fetch (c : Core) (m : Memory) (a : Address) : Except FetchFailure Instruction × Core :=
  match c.lookup m a with
  | .error p => (.error (.panic p), c)
  | .ok (some i, c) => (.ok i, c)
  | .ok (none, c) =>
    match m.fetch a Decode.maxLength with
    | .error fault => (.error (.fault fault), c)
    | .ok (window, stamp) =>
      match decode .bits64 a window with
      | .ok i => c.keep (stamp.restrict a i.length) i
      | .error error => (.error (failure m a window error), c)

/-- Fetch, decode and execute one instruction. -/
def stepOne (c : Core) (t : Thread) (m : Memory) : Execution × Core :=
  let a := t.registers.rip
  match c.fetch m a with
  | (.ok i, c) => (t.execute m i, c)
  | (.error (.fault fault), c) => (t.raise m (.memory fault) a, c)
  | (.error (.decode error bytes), c) => (t.haltOnDecode m a bytes error, c)
  | (.error (.panic p), c) => (t.panic m p, c)

/-! ### Runs -/

/-- A thread, its memory and its core after a run. -/
structure Run where
  /-- The core. -/
  core : Core
  /-- The thread. -/
  thread : Thread
  /-- The memory. -/
  memory : Memory
  /-- How many instructions completed. -/
  executed : Nat := 0
  /-- What became of the last instruction; `completed` if the budget ran out. -/
  result : StepResult := .completed
  /-- The descriptions of the completed instructions, latest first. -/
  events : List TraceEvent := []

namespace Run

/-- Take up the outcome of one instruction. -/
def extend (r : Run) (e : Execution) : Run :=
  let completed :=
    match e.result with
    | .completed | .syscall _ => true
    | _ => false
  { r with
    thread := e.thread
    memory := e.memory
    executed := if completed then r.executed + 1 else r.executed
    result := e.result
    events := if r.core.tracing then e.event.toList ++ r.events else r.events }

/-- Change the table of blocks of the core, if there is one. -/
def updateBlocks (r : Run) (f : BlockTable → BlockTable) : Run :=
  { r with core.blocks := r.core.blocks.map f }

end Run

/-- Execute instructions of a block until the budget runs out, control goes elsewhere, something
other than plain completion happens, or a store changes the code of the block. -/
def runInstructions (block : Block) :
    (instructions : List Instruction) → (budget : Nat) → Run → Run
  | [], _, r => r
  | _, 0, r => r
  | i :: rest, budget + 1, r =>
    if r.thread.registers.rip ≠ i.address then r
    else
      let e := r.thread.execute r.memory i
      let r := r.extend e
      match e.result with
      | .completed =>
        if !e.writes.isEmpty && !block.isValid e.memory then
          r.updateBlocks (·.invalidate block.entry)
        else runInstructions block rest budget r
      | _ => r

/-- Run a block, and count what completed in it. -/
def runBlock (r : Run) (block : Block) (budget : Nat) : Run :=
  let after := runInstructions block block.instructions budget r
  after.updateBlocks (·.noteRetired (after.executed - r.executed))

/-- Ask the table for a block at the instruction pointer. -/
def blockAt (r : Run) : Option Block × Run :=
  match r.core.blocks with
  | none => (none, r)
  | some blocks =>
    let (found, blocks) := blocks.lookup r.memory r.thread.registers.rip
    (found, { r with core.blocks := some blocks })

/-- Run a block at the instruction pointer if there is one that gets anywhere, and otherwise one
instruction. -/
def advance (r : Run) (budget : Nat) : Run :=
  let single (r : Run) : Run :=
    let (e, core) := r.core.stepOne r.thread r.memory
    { r with core }.extend e
  match blockAt r with
  | (none, r) => single r
  | (some block, r) =>
    let after := runBlock r block budget
    if after.result = .completed ∧ after.executed = r.executed then single after else after

/-- Go on until the budget is used up or something other than completion happens. Every turn
completes an instruction or is the last one, so as many turns as instructions are enough. -/
def runTurns (budget : Nat) : (turns : Nat) → Run → Run
  | 0, r => r
  | turns + 1, r =>
    if budget ≤ r.executed then r
    else
      let r := advance r (budget - r.executed)
      match r.result with
      | .completed => runTurns budget turns r
      | _ => r

/-- The memory of a thread that can be run. -/
def runnable (t : Thread) (m : Option Memory) : Except SchedulingError Memory :=
  if t.isHalted then .error .threadAlreadyHalted
  else
    match m with
    | some m => .ok m
    | none => .error .addressSpaceReleased

/-- Execute exactly one instruction, without blocks. -/
def step (c : Core) (t : Thread) (m : Option Memory) : Except SchedulingError Run := do
  let m ← runnable t m
  let (e, core) := c.stepOne t m
  return Run.extend { core, thread := t, memory := m } e

/-- Execute up to `budget` instructions, up to the first that does not simply complete. -/
def run (c : Core) (t : Thread) (m : Option Memory) (budget : Nat) :
    Except SchedulingError Run := do
  let m ← runnable t m
  return runTurns budget budget { core := c, thread := t, memory := m }

end Core

end LongMode
