import LongMode.Decode.Context

/-!
The ModRM byte and what follows it. Its `rm` field names a register or, with the SIB byte and a
displacement, a place in memory. Addresses of 32 and 64 bits share one scheme, addresses of 16 bits
have a table of their own; only 64-bit code has operands relative to the instruction pointer.
-/

set_option autoImplicit false
set_option relaxedAutoImplicit false

namespace LongMode.Decode

/-- The three fields of a ModRM byte, without the bits that REX adds. -/
structure ModRm where
  /-- Two bits: 3 for a register, otherwise the form of the displacement. -/
  mod : Nat
  /-- Three bits: a register or an extension of the opcode. -/
  reg : Nat
  /-- Three bits: a register or the form of the address. -/
  rm : Nat
  deriving DecidableEq, Repr

namespace ModRm

/-- The fields of a byte. -/
def ofByte (b : Nat) : ModRm :=
  ⟨b / 64 % 4, b / 8 % 8, b % 8⟩

/-- Whether the `rm` field names a register. -/
def isRegister (m : ModRm) : Bool :=
  m.mod == 3

/-- Whether the `rm` field stands for memory. -/
def isMemory (m : ModRm) : Bool :=
  m.mod != 3

end ModRm

/-- What the `rm` field stands for. -/
inductive Place where
  /-- A register of a bank that the instruction chooses. -/
  | register (number : Nat)
  /-- Memory; the size of the operand is for the instruction to say. -/
  | memory (m : MemoryOperand)
  /-- Memory at a distance from the next instruction; `wide` for 64-bit addresses. -/
  | relative (m : MemoryOperand) (wide : Bool)
  deriving DecidableEq, Repr

namespace Place

/-- Whether a place is in memory. -/
def isMemory : Place → Bool
  | register _ => false
  | _ => true

/-- Whether an optional address register has fewer than 64 bits. -/
def narrowRegister (r : Option Register) : Bool :=
  match r with
  | some r => r.size == 2 || r.size == 4
  | none => false

/-- Whether the address of a place is computed with less than 64 bits. -/
def isNarrow : Place → Bool
  | register _ => false
  | memory m => narrowRegister m.base || narrowRegister m.index
  | relative _ wide => !wide

/-- The memory operand of `size` bytes at a place, given the address of the next instruction. -/
def operand (size : Nat) (next : Address) : Place → Option MemoryOperand
  | register _ => none
  | memory m => some { m with size }
  | relative m wide =>
    let sum := next + m.displacement
    some { m with
      size
      displacement := if wide then sum else (sum.setWidth 32).setWidth 64 }

end Place

/-- A four-bit register number from three bits and the bit that REX adds. -/
def extend (extra : Bool) (n : Nat) : Nat :=
  n + (if extra then 8 else 0)

namespace Context

/-- The segment of an access: the override, or SS for a base of RSP or RBP, or DS. -/
def segmentFor (c : Context) (base : Option Register) : Segment :=
  c.prefixes.segment.getD <|
    match base with
    | some (.general _ n) => if n = Register.rsp ∨ n = Register.rbp then .ss else .ds
    | _ => .ds

/-- A displacement of `count` bytes, extended to the width of addresses and then with zeros. -/
def displacement (c : Context) (count : Nat) : Reader (BitVec 64) := do
  let d ← Reader.signed count
  return (d.setWidth c.addressSize.bits).setWidth 64

/-- The displacement that the `mod` field announces, of one byte or of `full` bytes. -/
def announcedDisplacement (c : Context) (mod full : Nat) : Reader (BitVec 64) :=
  if mod = 1 then c.displacement 1
  else if mod = 2 then c.displacement full
  else return 0

/-- A general register as part of an address. -/
def addressRegister (c : Context) (n : Nat) : Register :=
  .ofNumber c.addressSize n

/-- The memory operand with the given parts. -/
def memoryAt (c : Context) (base index : Option Register) (scale : Nat) (d : BitVec 64) :
    MemoryOperand :=
  { base, index, scale, displacement := d, segment := c.segmentFor base }

/-- The two address registers of a 16-bit address form. -/
def shortAddress : Nat → Option Nat × Option Nat
  | 0 => (some 3, some 6)
  | 1 => (some 3, some 7)
  | 2 => (some 5, some 6)
  | 3 => (some 5, some 7)
  | 4 => (some 6, none)
  | 5 => (some 7, none)
  | 6 => (some 5, none)
  | _ => (some 3, none)

/-- Read the rest of a 16-bit address. -/
def readShortAddress (c : Context) (m : ModRm) : Reader Place := do
  if m.mod = 0 ∧ m.rm = 6 then
    let d ← c.displacement 2
    return .memory (c.memoryAt none none 1 d)
  else
    let d ← c.announcedDisplacement m.mod 2
    let (base, index) := shortAddress m.rm
    return .memory (c.memoryAt (base.map c.addressRegister) (index.map c.addressRegister) 1 d)

/-- Read the rest of an address after its SIB byte. -/
def readScaledAddress (c : Context) (m : ModRm) (sib : Nat) : Reader Place := do
  let indexNumber := extend c.rex.x (sib / 8 % 8)
  let index := if indexNumber = 4 then none else some (c.addressRegister indexNumber)
  let scale := 1 <<< (sib / 64)
  if sib % 8 = 5 ∧ m.mod = 0 then
    let d ← c.displacement 4
    return .memory (c.memoryAt none index scale d)
  else
    let d ← c.announcedDisplacement m.mod 4
    return .memory (c.memoryAt (some (c.addressRegister (extend c.rex.b (sib % 8)))) index scale d)

/-- Read the rest of a 32- or 64-bit address. -/
def readLongAddress (c : Context) (m : ModRm) : Reader Place := do
  if m.rm = 4 then
    let sib ← Reader.next
    c.readScaledAddress m sib
  else if m.rm = 5 ∧ m.mod = 0 then
    if c.is64 then
      let d ← Reader.signed 4
      return .relative (c.memoryAt none none 1 d) (c.addressSize == .qword)
    else
      let d ← c.displacement 4
      return .memory (c.memoryAt none none 1 d)
  else
    let d ← c.announcedDisplacement m.mod 4
    return .memory (c.memoryAt (some (c.addressRegister (extend c.rex.b m.rm))) none 1 d)

/-- Read what the `rm` field stands for. -/
def readPlace (c : Context) (m : ModRm) : Reader Place :=
  if m.isRegister then return .register (extend c.rex.b m.rm)
  else if c.addressSize = .word then c.readShortAddress m
  else c.readLongAddress m

end Context

end LongMode.Decode
