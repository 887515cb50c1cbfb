import LongMode.Decode.ModRm

/-!
Operand forms: how an operand is found in an encoding. A form is read into a draft, which becomes an
operand once the address of the next instruction is known. A `Spec` is what the opcode tables hold:
a mnemonic with its operand forms and the properties of the encoding that do not follow from them.
-/

set_option autoImplicit false
set_option relaxedAutoImplicit false

namespace LongMode.Decode

/-- The width of an operand, fixed or by prefixes. -/
inductive FormWidth where
  /-- The same under all prefixes. -/
  | fixed (width : Width)
  /-- The operand size. -/
  | operand
  /-- The operand size, but never more than four bytes. -/
  | upToDword
  /-- Eight bytes with REX.W, otherwise four. -/
  | dwordOrQword
  /-- Eight bytes in 64-bit code, otherwise four. -/
  | native
  /-- The width of addresses. -/
  | address
  deriving DecidableEq, Repr

/-- How an operand is found in an encoding. -/
inductive Form where
  /-- A general register or memory by the `rm` field. -/
  | rm (width : FormWidth)
  /-- A general register of a width, or `bytes` bytes of memory, by the `rm` field. -/
  | rmOr (width : FormWidth) (bytes : Nat)
  /-- A general register by the `reg` field. -/
  | reg (width : FormWidth)
  /-- A general register by the low bits of the opcode. -/
  | opcodeReg (width : FormWidth)
  /-- The accumulator. -/
  | accumulator (width : FormWidth)
  /-- A register that the opcode implies. -/
  | fixed (r : Register)
  /-- A segment register by the `reg` field. -/
  | segment
  /-- A control register by the `reg` field. -/
  | control
  /-- A debug register by the `reg` field. -/
  | debug
  /-- Memory of a fixed number of bytes by the `rm` field. -/
  | memory (bytes : Nat)
  /-- Memory of an operand width by the `rm` field. -/
  | memoryOf (width : FormWidth)
  /-- Memory at an address in the instruction. -/
  | offset (width : FormWidth)
  /-- Memory at the table register plus the low accumulator byte. -/
  | table
  /-- A one-byte constant. -/
  | imm8
  /-- A one-byte constant extended with its sign to the operand size. -/
  | imm8Signed
  /-- A two-byte constant. -/
  | imm16
  /-- A constant of the operand size, four bytes extended with their sign if that is eight. -/
  | imm
  /-- A constant of the full operand size. -/
  | immFull
  /-- The constant one, which the opcode implies. -/
  | one
  /-- A branch distance of one byte. -/
  | branch8
  /-- A branch distance of two or four bytes by the operand size. -/
  | branch
  /-- The distance of a handler of aborted transactions, of two or four bytes by the operand-size
  prefix alone. -/
  | abortHandler
  /-- A segment and an offset in the instruction. -/
  | farPointer
  /-- An operand at the string registers. -/
  | string
  /-- A vector register by the `reg` field. -/
  | xmm
  /-- A vector register or memory by the `rm` field. -/
  | xmmRm (bytes : Nat)
  /-- A 64-bit vector register by the `reg` field. -/
  | mmx
  /-- A 64-bit vector register or memory by the `rm` field. -/
  | mmxRm (bytes : Nat)
  /-- A register of the floating-point stack by the `rm` field. -/
  | stackRm
  deriving DecidableEq, Repr

/-- How an encoding moves the stack pointer, in slots of the operand size. -/
inductive StackEffect where
  | none
  /-- By a number of slots. -/
  | slots (count : Int)
  /-- By a number of slots and the first operand. -/
  | slotsAndConstant (count : Int)
  /-- By a frame with copies of outer frame pointers and local space. -/
  | frame
  /-- By the return state of an interrupt. -/
  | interruptReturn
  deriving DecidableEq, Repr

/-- What an opcode stands for. -/
structure Spec where
  /-- What the instruction does. -/
  mnemonic : Mnemonic
  /-- Its operands. -/
  forms : List Form := []
  /-- How its operand size follows from prefixes. -/
  size : SizeRule := .standard
  /-- The lock prefix is allowed with a memory destination. -/
  lockable : Bool := false
  /-- The repeat prefix is part of the opcode. -/
  ownsRepeat : Bool := false
  /-- How it passes control on. -/
  flow : Flow := .next
  /-- How it moves the stack pointer. -/
  stack : StackEffect := .none
  /-- The width in bytes of its implicit operands. -/
  element : Nat := 0
  /-- The `rm` field names a register whatever the `mod` field says. -/
  anyMod : Bool := false
  deriving DecidableEq, Repr

/-- What an opcode stands for once its mandatory prefix is known. -/
inductive Entry where
  /-- No instruction. -/
  | invalid
  /-- An instruction without ModRM byte. -/
  | plain (spec : Spec)
  /-- An instruction, or none, by the ModRM byte. -/
  | modRm (select : ModRm → Option Spec)

namespace FormWidth

/-- The width that a form width stands for, given the operand size. -/
def resolve (c : Context) (size : Width) : FormWidth → Width
  | fixed width => width
  | operand => size
  | upToDword => if size = .qword then .dword else size
  | dwordOrQword => c.dwordOrQword
  | native => c.native
  | address => c.addressSize

end FormWidth

/-- The operand of a form, given the address of the next instruction. -/
abbrev Draft := Address → Operand

/-- The parts of an encoding that its operand forms refer to. -/
structure Encoding where
  /-- Mode and prefixes. -/
  context : Context
  /-- The last opcode byte. -/
  opcode : Nat
  /-- The operand size. -/
  size : Width
  /-- The ModRM byte and the place it stands for, if there is one. -/
  place : Option (ModRm × Place)

namespace Encoding

/-- The `reg` field with the bit that REX adds. -/
def regNumber (e : Encoding) : Nat :=
  match e.place with
  | some (m, _) => extend e.context.rex.r m.reg
  | none => 0

/-- A general register by number. Without a REX prefix the byte registers from the fifth on are the
second bytes of the first four. -/
def general (e : Encoding) (width : Width) (n : Nat) : Register :=
  if width = .byte ∧ e.context.prefixes.rex.isNone ∧ 4 ≤ n ∧ n < 8 then
    .highByteOfNumber n
  else .ofNumber width n

/-- The operand at the `rm` field: a register chosen by `register`, or memory of `bytes` bytes. -/
def atPlace (e : Encoding) (bytes : Nat) (register : Nat → Register) : Draft := fun next =>
  match e.place with
  | some (_, .register n) => .register (register n)
  | some (_, place) =>
    match place.operand bytes next with
    | some m => .memory m
    | none => .implicit
  | none => .implicit

/-- The target of a branch over a distance. Outside 64-bit code it wraps at a width. -/
def target (e : Encoding) (width : Width) (distance : BitVec 64) : Draft := fun next =>
  let sum := next + distance
  .branch (if e.context.is64 then sum else (sum.setWidth width.bits).setWidth 64)

/-- Read a branch distance of one of two lengths, to a target that wraps at a width. -/
def readBranch (e : Encoding) (short : Bool) (width : Width) : Reader Draft := do
  let d ← Reader.signed (if short then 2 else 4)
  return e.target width d

/-- Read a constant of the operand size, of at most four bytes. -/
def readConstant (e : Encoding) : Reader Draft := do
  match e.size with
  | .qword =>
    let v ← Reader.signed 4
    return fun _ => .immediate v 8
  | size =>
    let n ← Reader.number size.bytes
    return fun _ => .immediate (BitVec.ofNat 64 n) size.bytes

/-- Read one operand. -/
def read (e : Encoding) (form : Form) : Reader Draft := do
  let c := e.context
  let widthOf := FormWidth.resolve c e.size
  match form with
  | .rm width =>
    let w := widthOf width
    return e.atPlace w.bytes (e.general w)
  | .rmOr width bytes => return e.atPlace bytes (e.general (widthOf width))
  | .reg width => return fun _ => .register (e.general (widthOf width) e.regNumber)
  | .opcodeReg width =>
    return fun _ => .register (e.general (widthOf width) (extend c.rex.b (e.opcode % 8)))
  | .accumulator width => return fun _ => .register (.general (widthOf width) Register.rax)
  | .fixed r => return fun _ => .register r
  | .segment =>
    match (e.place.bind fun (m, _) => Segment.ofNat? m.reg) with
    | some s => return fun _ => .register (.segment s)
    | none => .reject
  | .control => return fun _ => .register (.controlOfNumber e.regNumber)
  | .debug => return fun _ => .register (.debugOfNumber e.regNumber)
  | .memory bytes => return e.atPlace bytes (e.general .qword)
  | .memoryOf width => return e.atPlace (widthOf width).bytes (e.general .qword)
  | .offset width =>
    let n ← Reader.number c.addressSize.bytes
    let m := { c.memoryAt none none 1 (BitVec.ofNat 64 n) with size := (widthOf width).bytes }
    return fun _ => .memory m
  | .table =>
    let m := c.memoryAt (some (c.addressRegister 3)) (some (.general .byte Register.rax)) 1 0
    return fun _ => .memory { m with size := 1 }
  | .imm8 =>
    let n ← Reader.number 1
    return fun _ => .immediate (BitVec.ofNat 64 n) 1
  | .imm8Signed =>
    let v ← Reader.signed 1
    return fun _ => .immediate v e.size.bytes
  | .imm16 =>
    let n ← Reader.number 2
    return fun _ => .immediate (BitVec.ofNat 64 n) 2
  | .imm => e.readConstant
  | .immFull =>
    let n ← Reader.number e.size.bytes
    return fun _ => .immediate (BitVec.ofNat 64 n) e.size.bytes
  | .one => return fun _ => .immediate 1 1
  | .branch8 =>
    let d ← Reader.signed 1
    return e.target e.size d
  | .branch => e.readBranch (e.size == .word) e.size
  | .abortHandler => e.readBranch (c.standardSize == .word) c.native
  | .farPointer =>
    let _ ← Reader.number (e.size.bytes + 2)
    return fun _ => .implicit
  | .string => return fun _ => .implicit
  | .xmm => return fun _ => .register (.xmmOfNumber e.regNumber)
  | .xmmRm bytes => return e.atPlace bytes fun n => .xmmOfNumber n
  | .mmx => return fun _ => .register (.mmxOfNumber e.regNumber)
  | .mmxRm bytes => return e.atPlace bytes fun n => .mmxOfNumber n
  | .stackRm => return e.atPlace 0 fun n => .stackOfNumber n

/-- Read operands one after the other. -/
def readAll (e : Encoding) : List Form → Reader (List Draft)
  | [] => return []
  | form :: rest => do
    let draft ← e.read form
    let drafts ← e.readAll rest
    return draft :: drafts

end Encoding

namespace StackEffect

/-- The value of a constant operand. -/
def constant : Option Operand → Int
  | some (.immediate value _) => value.toNat
  | _ => 0

/-- The change of the stack pointer, given the operand size and the operands. -/
def apply (is64 : Bool) (slot : Int) (operands : List Operand) : StackEffect → Int
  | none => 0
  | slots count => count * slot
  | slotsAndConstant count => count * slot + constant operands[0]?
  | frame => -(slot + constant operands[1]? % 32 * slot + constant operands[0]?)
  | interruptReturn => (if is64 then 5 else 3) * slot

end StackEffect

namespace Spec

/-- Whether an encoding refers to memory by the `rm` field. -/
def refersToMemory (place : Option (ModRm × Place)) : Bool :=
  match place with
  | some (_, place) => place.isMemory
  | none => false

/-- Whether some operand of an encoding is addressed with less than 64 bits. -/
def isNarrow (c : Context) (forms : List Form) (place : Option (ModRm × Place)) : Bool :=
  (forms.any (fun form => form == .string || form == .table) && c.addressSize != .qword)
    || match place with
      | some (_, place) => place.isNarrow
      | none => false

/-- Read the operands of an instruction and put it together. The outcome awaits the length. -/
def read (s : Spec) (c : Context) (opcode : Nat) (place : Option (ModRm × Place)) :
    Reader (Nat → Instruction) := do
  let size := c.operandSize s.size
  let drafts ← Encoding.readAll ⟨c, opcode, size, place⟩ s.forms
  if c.prefixes.lock && !(s.lockable && refersToMemory place) then .reject
  else
    return fun length =>
      let next := c.address + BitVec.ofNat 64 length
      let operands := drafts.map (· next)
      { mnemonic := s.mnemonic
        operands
        prefixes :=
          { lock := c.prefixes.lock
            repetition := if s.ownsRepeat then none else c.prefixes.repetition
            segment := c.prefixes.segment }
        address := c.address
        length
        flow := s.flow
        stackIncrement := s.stack.apply c.is64 size.bytes operands
        elementSize := s.element
        narrowAddress := isNarrow c s.forms place }

end Spec

namespace Entry

/-- Read the rest of an instruction after its opcode, with a ModRM byte that may be read already. -/
def read (entry : Entry) (c : Context) (opcode : Nat) (modRmByte : Option Nat) :
    Reader (Nat → Instruction) := do
  match entry with
  | invalid => .reject
  | plain spec => spec.read c opcode none
  | modRm select =>
    let b ← match modRmByte with
      | some b => pure b
      | none => Reader.next
    let m := ModRm.ofByte b
    match select m with
    | none => .reject
    | some spec =>
      let place ← c.readPlace (if spec.anyMod then { m with mod := 3 } else m)
      spec.read c opcode (some (m, place))

end Entry

end LongMode.Decode
