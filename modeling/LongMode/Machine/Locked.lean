import LongMode.Machine.Bits
import LongMode.Machine.Transfer

/-!
Instructions that read, change and write a cell of memory in one indivisible step: those under a
lock prefix, and the exchanges that are indivisible with or without it.
-/

set_option autoImplicit false
set_option relaxedAutoImplicit false

namespace LongMode

/-- Whether an instruction with a memory destination may be locked. -/
def Mnemonic.isLockable : Mnemonic → Bool
  | .alu _ | .unary _ | .xchg | .xadd | .cmpxchg | .cmpxchg8b | .cmpxchg16b => true
  | .bit op => op != .test
  | _ => false

namespace Exec

/-- The memory operand that an instruction begins with. -/
def memoryDestination (i : Instruction) : Exec MemoryOperand := do
  match ← i.operand 0 with
  | .memory m => return m
  | _ => invalid

/-- The register that an instruction has as its second operand. -/
def sourceRegister (i : Instruction) : Exec Register := do
  match ← i.operand 1 with
  | .register r => return r
  | _ => invalid

/-- Replace a cell, and the flags, by what `f` makes of them. -/
def updateLocked (a : Address) (w : Width)
    (f : Flags → BitVec w.bits → BitVec w.bits × Flags) : Exec Unit := do
  let before ← flags
  let after ← atomically a w (f before)
  setFlags after

/-- A two-operand operation on a locked cell. -/
def binaryLocked (op : AluOp) (i : Instruction) : Exec Unit := do
  let m ← memoryDestination i
  let w ← (Operand.memory m).width
  let b ← readOperand (← i.operand 1) w
  let a ← linear m
  updateLocked a w fun f old => op.apply f old b

/-- A one-operand operation on a locked cell. -/
def unaryLocked (op : UnaryOp) (i : Instruction) : Exec Unit := do
  let m ← memoryDestination i
  let w ← (Operand.memory m).width
  let a ← linear m
  updateLocked a w op.apply

/-- A bit operation on a locked cell. -/
def bitLocked (op : BitOp) (i : Instruction) : Exec Unit := do
  let dst ← i.operand 0
  let w ← dst.width
  let (place, index) ← locateBit dst (← i.operand 1) w
  match place with
  | some a => updateLocked a w fun f old => op.apply f old index
  | none => invalid

/-- The sum replaces the destination, and its old value the source. -/
def exchangeAdd (i : Instruction) : Exec Unit := do
  let dst ← i.operand 0
  let src ← sourceRegister i
  let w ← dst.width
  let b := (← readRegister src).setWidth w.bits
  let before ← flags
  match dst with
  | .register r =>
    let old := (← readRegister r).setWidth w.bits
    let (sum, after) := Alu.add before old b false
    writeRegister src (old.setWidth 64)
    writeRegister r (sum.setWidth 64)
    setFlags after
  | .memory m =>
    let a ← linear m
    let (old, after) ← atomically a w fun old =>
      let (sum, after) := Alu.add before old b false
      (sum, (old, after))
    writeRegister src (old.setWidth 64)
    setFlags after
  | _ => invalid

/-- Exchange the destination for the source register if it equals the accumulator, and otherwise
load the accumulator from it. -/
def compareExchange (i : Instruction) : Exec Unit := do
  let dst ← i.operand 0
  let src ← sourceRegister i
  let w ← dst.width
  let expected ← generalLow Register.rax w
  let replacement := (← readRegister src).setWidth w.bits
  let old ← match dst with
    | .register r => do
      let old := (← readRegister r).setWidth w.bits
      if old = expected then writeRegister r (replacement.setWidth 64)
      pure old
    | .memory m => do
      atomically (← linear m) w fun old => (if old = expected then replacement else old, old)
    | _ => invalid
  modifyFlags fun f => (Alu.sub f expected old false).2
  if old ≠ expected then setGeneralLow Register.rax w old

/-- The word that two registers hold, the first one in the upper half. -/
def registerPair (w : Width) (high low : Fin 16) : Exec (BitVec (w.bits + w.bits)) := do
  return (← generalLow high w) ++ (← generalLow low w)

/-- The outcome of a wide exchange: the zero flag tells whether it took place, and if it did not,
the old value of the cell goes to the data register and the accumulator. -/
def finishWideExchange (w : Width) (expected old : BitVec (w.bits + w.bits)) : Exec Unit := do
  modifyFlags (·.set .zero (old == expected))
  if old ≠ expected then
    setGeneral Register.rax ((old.setWidth w.bits).setWidth 64)
    setGeneral Register.rdx (((old >>> w.bits).setWidth w.bits).setWidth 64)

/-- Exchange eight bytes of memory if they equal a register pair. -/
def compareExchange8 (i : Instruction) : Exec Unit := do
  let m ← memoryDestination i
  let expected ← registerPair .dword Register.rdx Register.rax
  let replacement ← registerPair .dword Register.rcx Register.rbx
  let a ← linear m
  let old ← atomically a .qword fun old =>
    (if old = expected.setWidth _ then replacement.setWidth _ else old, old)
  finishWideExchange .dword expected (old.setWidth _)

/-- Exchange sixteen aligned bytes of memory if they equal a register pair. The store is recorded
even if the bytes stay the same. -/
def compareExchange16 (i : Instruction) : Exec Unit := do
  let m ← memoryDestination i
  let expected ← registerPair .qword Register.rdx Register.rax
  let replacement ← registerPair .qword Register.rcx Register.rbx
  let a ← linear m
  let (old, after) ← ofMemory ((← memory).atomicUpdateAligned a 16 16 fun old =>
    (if old = expected.setWidth _ then replacement.setWidth _ else old, old))
  if old = expected.setWidth _ then record after a (LittleEndian.ofNat 16 replacement.toNat)
  finishWideExchange .qword expected (old.setWidth _)

/-- An instruction under a lock prefix. -/
def locked (i : Instruction) : Exec Unit :=
  match i.mnemonic with
  | .alu op => binaryLocked op i
  | .unary op => unaryLocked op i
  | .bit op => bitLocked op i
  | .xchg => exchange i
  | .xadd => exchangeAdd i
  | .cmpxchg => compareExchange i
  | .cmpxchg8b => compareExchange8 i
  | .cmpxchg16b => compareExchange16 i
  | _ => invalid

end Exec

end LongMode
