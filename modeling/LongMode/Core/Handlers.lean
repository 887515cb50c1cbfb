import LongMode.Core.Basic

/-!
Instructions bound to what carries them out. A block keeps its instructions bound to their handlers,
so that running it looks none of them up again (`Core.runOps`). Here the handlers are found again
from the instructions (`Block.ops?`), and nothing is built in of their being the right ones.
-/

set_option autoImplicit false
set_option relaxedAutoImplicit false

namespace LongMode

/-- What carries out an instruction. -/
abbrev Handler : Type :=
  Exec Transfer

/-- An instruction bound to its handler. -/
structure CompiledOp where
  /-- The instruction. -/
  instruction : Instruction
  /-- What carries it out. -/
  handler : Handler

/-- Bind an instruction to its handler, if it has one. -/
def CompiledOp.bind? (i : Instruction) : Option CompiledOp :=
  i.effect.toOption.map fun handler => ⟨i, handler⟩

/-- The instructions of a block bound to their handlers, if all of them have one. -/
def Block.ops? (b : Block) : Option (List CompiledOp) :=
  b.instructions.mapM CompiledOp.bind?

/-- Run a bound instruction. -/
def Machine.executeBound (m : Machine) (op : CompiledOp) : Except Stop Completion × Memory :=
  match op.handler.run.run m with
  | (.ok transfer, after) => (.ok (after.complete op.instruction transfer), after.memory)
  | (.error stop, after) => (.error stop, after.memory)

/-- Take up the outcome of an instruction. -/
def Thread.conclude (t : Thread) (i : Instruction) :
    Except Stop Completion × Memory → Execution
  | (.error stop, after) => t.abandon after stop i.address
  | (.ok done, after) =>
    let next := t.retire done.registers
    { thread := next
      memory := after
      result := if done.syscall then .syscall done.registers.syscallRequest else .completed
      writes := done.writes.toList
      event := some
        { tid := t.tid
          sequence := t.retired
          instruction := i
          changes := t.registers.changes done.registers
          writes := done.writes.toList } }

/-- Execute a bound instruction. -/
def Thread.executeBound (t : Thread) (m : Memory) (op : CompiledOp) : Execution :=
  t.conclude op.instruction
    (Machine.executeBound { registers := t.registers, memory := m, retired := t.retired } op)

/-- Execute the bound instructions of a block as `Core.runInstructions` executes instructions. -/
def Core.runOps (block : Block) : (ops : List CompiledOp) → (budget : Nat) → Run → Run
  | [], _, r => r
  | _, 0, r => r
  | op :: rest, budget + 1, r =>
    if r.thread.registers.rip ≠ op.instruction.address then r
    else
      let e := r.thread.executeBound r.memory op
      let r := r.extend e
      match e.result with
      | .completed =>
        if !e.writes.isEmpty && !block.isValid e.memory then
          r.updateBlocks (·.invalidate block.entry)
        else runOps block rest budget r
      | _ => r

end LongMode
