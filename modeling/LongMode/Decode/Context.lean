import LongMode.Decode.Instruction
import LongMode.Decode.Reader

/-!
What the decoder knows before it reads the opcode: the mode, the address and the prefixes. From
these follow the operand size, the address size and the prefix that selects among the instructions
of one opcode.

A REX prefix counts only directly in front of the opcode; of the two repeat prefixes the last one
counts; in 64-bit mode an override of ES, CS, SS or DS does not replace one of FS or GS.
-/

set_option autoImplicit false
set_option relaxedAutoImplicit false

namespace LongMode

/-- The mode that code is decoded for. -/
inductive Mode where
  | bits16
  | bits32
  | bits64
  deriving DecidableEq, Repr

namespace Decode

/-- The bits of a REX prefix. -/
structure Rex where
  /-- Operands have 64 bits. -/
  w : Bool := false
  /-- Fourth bit of the `reg` field. -/
  r : Bool := false
  /-- Fourth bit of the index field. -/
  x : Bool := false
  /-- Fourth bit of the `rm` field, the base field or the opcode's register field. -/
  b : Bool := false
  deriving DecidableEq, Repr

/-- The prefixes read so far. -/
structure PrefixState where
  /-- The lock prefix. -/
  lock : Bool := false
  /-- The last repeat prefix. -/
  repetition : Option Repeat := none
  /-- The segment override in force. -/
  segment : Option Segment := none
  /-- The operand-size prefix. -/
  operandSize : Bool := false
  /-- The address-size prefix. -/
  addressSize : Bool := false
  /-- The REX prefix directly before. -/
  rex : Option Rex := none
  deriving DecidableEq, Repr

namespace PrefixState

/-- Take up a segment override. -/
def override (s : PrefixState) (mode : Mode) (segment : Segment) : PrefixState :=
  let weak := segment != .fs && segment != .gs
  let held := s.segment == some .fs || s.segment == some .gs
  if mode == .bits64 && weak && held then s else { s with segment := some segment }

/-- Take up one byte if it is a prefix; a prefix other than REX cancels an earlier REX. -/
def step? (s : PrefixState) (mode : Mode) (b : Nat) : Option PrefixState :=
  let s' := { s with rex := none }
  match b with
  | 0x26 => some (s'.override mode .es)
  | 0x2e => some (s'.override mode .cs)
  | 0x36 => some (s'.override mode .ss)
  | 0x3e => some (s'.override mode .ds)
  | 0x64 => some (s'.override mode .fs)
  | 0x65 => some (s'.override mode .gs)
  | 0x66 => some { s' with operandSize := true }
  | 0x67 => some { s' with addressSize := true }
  | 0xf0 => some { s' with lock := true }
  | 0xf2 => some { s' with repetition := some .repne }
  | 0xf3 => some { s' with repetition := some .rep }
  | _ =>
    if mode == .bits64 && b / 16 == 4 then
      some { s with rex := some ⟨b.testBit 3, b.testBit 2, b.testBit 1, b.testBit 0⟩ }
    else none

/-- Read prefixes and the first opcode byte. A window holds at most fifteen bytes, so a reader that
is asked for more prefixes than that cannot finish. -/
def read (mode : Mode) : (limit : Nat) → PrefixState → Reader (PrefixState × Nat)
  | 0, _ => .reject
  | limit + 1, s => do
    let b ← Reader.next
    match s.step? mode b with
    | some s => read mode limit s
    | none => return (s, b)

end PrefixState

/-- The prefix that selects among the instructions of one opcode. -/
inductive Selector where
  | none
  | p66
  | pF3
  | pF2
  deriving DecidableEq, Repr

/-- How the operand size of an instruction follows from mode and prefixes. -/
inductive SizeRule where
  /-- By prefixes, 32 bits unless they say otherwise. -/
  | standard
  /-- In 64-bit mode 64 bits, or 16 with the operand-size prefix. -/
  | stack
  /-- In 64-bit mode always 64 bits. -/
  | branch
  deriving DecidableEq, Repr

/-- What is known before the opcode is looked up. -/
structure Context where
  /-- The mode of the code. -/
  mode : Mode
  /-- The address of the first byte. -/
  address : Address
  /-- The prefixes. -/
  prefixes : PrefixState

namespace Context

/-- Whether the code is 64-bit code. -/
def is64 (c : Context) : Bool :=
  c.mode == .bits64

/-- The REX bits, all clear without the prefix. -/
def rex (c : Context) : Rex :=
  c.prefixes.rex.getD {}

/-- The prefix that selects among the instructions of one opcode: a repeat prefix before the
operand-size prefix. -/
def selector (c : Context) : Selector :=
  match c.prefixes.repetition with
  | some .rep => .pF3
  | some .repne => .pF2
  | none => if c.prefixes.operandSize then .p66 else .none

/-- The operand size under the standard rule. -/
def standardSize (c : Context) : Width :=
  match c.mode with
  | .bits16 => if c.prefixes.operandSize then .dword else .word
  | .bits32 => if c.prefixes.operandSize then .word else .dword
  | .bits64 =>
    if c.rex.w then .qword else if c.prefixes.operandSize then .word else .dword

/-- The operand size under a rule. -/
def operandSize (c : Context) : SizeRule → Width
  | .standard => c.standardSize
  | .stack =>
    if c.is64 then
      if c.prefixes.operandSize && !c.rex.w then .word else .qword
    else c.standardSize
  | .branch => if c.is64 then .qword else c.standardSize

/-- The width of addresses. -/
def addressSize (c : Context) : Width :=
  match c.mode with
  | .bits16 => if c.prefixes.addressSize then .dword else .word
  | .bits32 => if c.prefixes.addressSize then .word else .dword
  | .bits64 => if c.prefixes.addressSize then .dword else .qword

/-- Four bytes, or eight with REX.W. -/
def dwordOrQword (c : Context) : Width :=
  if c.is64 && c.rex.w then .qword else .dword

/-- The width of control registers and pointers: eight bytes in 64-bit code, otherwise four. -/
def native (c : Context) : Width :=
  if c.is64 then .qword else .dword

end Context

end Decode

end LongMode
