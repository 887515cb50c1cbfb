import LongMode.Decode.Mnemonic
import LongMode.Memory.Address
import LongMode.Register.Name

/-!
Decoded instructions: a mnemonic, operands, prefixes that take part in execution, and the address
and length of the encoding. The decoder also answers with one of three errors.
-/

set_option autoImplicit false
set_option relaxedAutoImplicit false

namespace LongMode

/-- Why bytes were not decoded. -/
inductive DecodeError where
  /-- The bytes form no instruction of the mode. -/
  | invalidOpcode
  /-- The bytes end before the instruction does. -/
  | truncated
  /-- The instruction exists, but its encoding is not executed. -/
  | unsupported
  deriving DecidableEq, Repr

namespace DecodeError

/-- The name of a decode error in reports. -/
def name : DecodeError → String
  | invalidOpcode => "InvalidOpcode"
  | truncated => "InsufficientBytes"
  | unsupported => "UnsupportedFeature"

/-- The wording of a decode error. -/
def message : DecodeError → String
  | invalidOpcode => "invalid opcode"
  | truncated => "instruction bytes truncated"
  | unsupported => "unsupported instruction encoding"

end DecodeError

/-- An operand in memory. For an operand relative to the instruction pointer the displacement is the
absolute address and there is no base. -/
structure MemoryOperand where
  /-- The register added first. -/
  base : Option Register := none
  /-- The register added `scale` times. -/
  index : Option Register := none
  /-- The factor of the index: 1, 2, 4 or 8. -/
  scale : Nat := 1
  /-- The constant part of the address. -/
  displacement : BitVec 64 := 0
  /-- The segment of the access. -/
  segment : Segment := .ds
  /-- The number of bytes accessed, zero if none are. -/
  size : Nat := 0
  deriving DecidableEq, Repr

/-- An operand. -/
inductive Operand where
  | register (r : Register)
  /-- A constant, extended to 64 bits, and the width in bytes that it stands for. -/
  | immediate (value : BitVec 64) (size : Nat)
  | memory (m : MemoryOperand)
  /-- The target of a relative branch. -/
  | branch (target : Address)
  /-- A string operand, or a far address in the instruction. -/
  | implicit
  deriving DecidableEq, Repr

/-- The width of an operand in bytes, if it has one. -/
def Operand.size? : Operand → Option Nat
  | .register r => some r.size
  | .immediate _ size => some size
  | .memory m => some m.size
  | .branch _ => none
  | .implicit => none

/-- Repeat prefixes. -/
inductive Repeat where
  /-- Repeat, or repeat while equal. -/
  | rep
  /-- Repeat while not equal. -/
  | repne
  deriving DecidableEq, Repr

/-- The prefixes of an instruction that are not part of its opcode. -/
structure Prefixes where
  /-- The lock prefix is present. -/
  lock : Bool := false
  /-- The repeat prefix, if there is one. -/
  repetition : Option Repeat := none
  /-- The segment that an override names. -/
  segment : Option Segment := none
  deriving DecidableEq, Repr

/-- How an instruction passes control on. -/
inductive Flow where
  | next
  | unconditionalBranch
  | indirectBranch
  | conditionalBranch
  | return
  | call
  | indirectCall
  | interrupt
  | transaction
  | exception
  deriving DecidableEq, Repr

/-- The name of a kind of flow in reports. -/
def Flow.name : Flow → String
  | .next => "Next"
  | .unconditionalBranch => "UnconditionalBranch"
  | .indirectBranch => "IndirectBranch"
  | .conditionalBranch => "ConditionalBranch"
  | .return => "Return"
  | .call => "Call"
  | .indirectCall => "IndirectCall"
  | .interrupt => "Interrupt"
  | .transaction => "XbeginXabortXend"
  | .exception => "Exception"

/-- A decoded instruction. -/
structure Instruction where
  /-- What it does. -/
  mnemonic : Mnemonic
  /-- What it does it to. -/
  operands : List Operand
  /-- The prefixes that take part in execution. -/
  prefixes : Prefixes
  /-- Where it was decoded. -/
  address : Address
  /-- The number of bytes of its encoding. -/
  length : Nat
  /-- How it passes control on. -/
  flow : Flow
  /-- The change of the stack pointer that the encoding implies. -/
  stackIncrement : Int
  /-- The width in bytes of its implicit operands. -/
  elementSize : Nat
  /-- Some address in it is computed with less than 64 bits. -/
  narrowAddress : Bool
  deriving DecidableEq, Repr

namespace Instruction

/-- The address after the instruction. -/
def next (i : Instruction) : Address :=
  i.address + BitVec.ofNat 64 i.length

/-- The width in bytes of the first operand, zero if it has none. -/
def operandSize (i : Instruction) : Nat :=
  match i.operands.head? with
  | some .implicit => i.elementSize
  | some operand => operand.size?.getD 0
  | none => 0

end Instruction

end LongMode
