import LongMode.Machine.Arithmetic
import LongMode.Machine.Control
import LongMode.Machine.FloatingPoint
import LongMode.Machine.Locked
import LongMode.Machine.Strings

/-!
Execution of one instruction. `Instruction.effect?` says what an instruction does, if it is one that
the machine executes; `Machine.execute` runs it to its end and moves the instruction pointer.
-/

set_option autoImplicit false
set_option relaxedAutoImplicit false

namespace LongMode

namespace Mnemonic

/-- What an instruction does that passes control on in order, if the machine executes it. -/
def straight? (i : Instruction) : Mnemonic → Option (Exec Unit)
  | alu op => some (Exec.binary op true i)
  | cmp => some (Exec.binary .sub false i)
  | test => some (Exec.binary .and false i)
  | unary op => some (Exec.unary op i)
  | xchg => some (Exec.exchange i)
  | xadd => some (Exec.exchangeAdd i)
  | cmpxchg => some (Exec.compareExchange i)
  | cmpxchg8b => some (Exec.compareExchange8 i)
  | cmpxchg16b => some (Exec.compareExchange16 i)
  | bit op => some (Exec.bit op i)
  | bsf => some (Exec.scan true i)
  | bsr => some (Exec.scan false i)
  | tzcnt => some (Exec.trailingZeros i)
  | lzcnt => some (Exec.leadingZeros i)
  | popcnt => some (Exec.populationCount i)
  | bswap => some (Exec.byteSwap i)
  | int3 => some (Exec.fault .breakpoint)
  | undefined _ => some (Exec.fault .undefinedInstruction)
  | privileged _ => some (Exec.fault .privileged)
  | mov => some (Exec.move i)
  | movzx => some (Exec.moveExtended false i)
  | movsx | movsxd => some (Exec.moveExtended true i)
  | lea => some (Exec.loadAddress i)
  | push => some (Exec.pushOperand i)
  | pop => some (Exec.popOperand i)
  | leave => some Exec.leave
  | cmov c => some (Exec.moveOn c i)
  | setcc c => some (Exec.setOn c i)
  | widenAccumulator w => some (Exec.widenAccumulator w)
  | widenPair w => some (Exec.widenPair w)
  | lahf => some Exec.loadFlagByte
  | sahf => some Exec.storeFlagByte
  | pushf _ => some (Exec.pushFlags i)
  | popf _ => some (Exec.popFlags i)
  | flag op => some (Exec.changeFlag op)
  | nop _ => some (pure ())
  | cpuid => some Exec.identify
  | rdtsc => some Exec.readTimeStamp
  | mul => some (Exec.mul i)
  | imul => some (Exec.imul i)
  | div => some (Exec.div i)
  | idiv => some (Exec.idiv i)
  | shift op => some (Exec.shift op i)
  | doubleShift left => some (Exec.doubleShift left i)
  | string op w => some (Exec.string op w i)
  | vectorMove op => some (Exec.moveVector op.aligned i)
  | movd => some (Exec.moveWord .dword i)
  | movq => some (Exec.moveWord .qword i)
  | scalarMove p => some (Exec.moveScalar p.width i)
  | halfMove op => some (Exec.moveHalf op.high i)
  | movhlps => some (Exec.moveAcross true i)
  | movlhps => some (Exec.moveAcross false i)
  | movnti => some (Exec.move i)
  | packed op => some (Exec.packed op i)
  | packedShift op w => some (Exec.packedShift op w i)
  | byteShift left => some (Exec.byteShift left i)
  | shuffle op => some (Exec.shuffle op i)
  | signMask op => some (Exec.signMask op i)
  | pextrw => some (Exec.extractWord i)
  | pinsrw => some (Exec.insertWord i)
  | floatArithmetic op vectors p => some (Exec.floatArithmetic op vectors p i)
  | floatFlags ordered p => some (Exec.floatFlags ordered p i)
  | floatMask vectors p => some (Exec.floatMask vectors p i)
  | intToFloat p => some (Exec.intToFloat p i)
  | floatToInt truncate p => some (Exec.floatToInt truncate p i)
  | changePrecision p => some (Exec.changePrecision p i)
  | ldmxcsr => some (Exec.loadControl i)
  | stmxcsr => some (Exec.storeControl i)
  | jmp | jcc _ | call | ret | loop _ | jumpIfCounterZero _ | syscall | other _ => none

/-- What an instruction does, if the machine executes it. -/
def effect? (i : Instruction) : Mnemonic → Option (Exec Transfer)
  | jmp => some (Exec.jump i)
  | jcc c => some (Exec.jumpOn c i)
  | call => some (Exec.call i)
  | ret => some (Exec.ret i)
  | loop kind => some (Exec.loop kind i)
  | jumpIfCounterZero wide => some (Exec.jumpIfCounterZero wide i)
  | syscall => some (Exec.syscall i)
  | m => (m.straight? i).map fun effect => do
    effect
    return .next

end Mnemonic

namespace Instruction

/-- Whether the first operand is in memory. -/
def hasMemoryDestination (i : Instruction) : Bool :=
  match i.operands.head? with
  | some (.memory _) => true
  | _ => false

/-- What an instruction does. A lock prefix is refused unless the instruction has a lockable
operation and a destination in memory. -/
def effect (i : Instruction) : Except DecodeError (Exec Transfer) :=
  if i.prefixes.lock then
    if i.mnemonic.isLockable && i.hasMemoryDestination then
      .ok do
        Exec.locked i
        return .next
    else .error .invalidOpcode
  else
    match i.mnemonic.effect? i with
    | some effect => .ok effect
    | none => .error .unsupported

end Instruction

/-- What a completed instruction leaves behind, apart from memory. -/
structure Completion where
  /-- The registers after it, with the instruction pointer moved. -/
  registers : RegisterFile
  /-- The stores it made. -/
  writes : Array MemoryWrite
  /-- Whether it called the host. -/
  syscall : Bool

/-- The registers and stores with which an instruction completes. -/
def Machine.complete (m : Machine) (i : Instruction) (transfer : Transfer) : Completion :=
  let rip :=
    match transfer with
    | .branch target => target
    | _ => i.next
  ⟨{ m.registers with rip, rflags := m.registers.flags }, m.writes, transfer == .syscall⟩

/-- Run one instruction. The memory is the one it leaves behind, also if it stops. -/
def Machine.execute (m : Machine) (i : Instruction) : Except Stop Completion × Memory :=
  match i.effect with
  | .error error => (.error (.fault (.decode error)), m.memory)
  | .ok effect =>
    match effect.run.run m with
    | (.ok transfer, after) => (.ok (after.complete i transfer), after.memory)
    | (.error stop, after) => (.error stop, after.memory)

end LongMode
