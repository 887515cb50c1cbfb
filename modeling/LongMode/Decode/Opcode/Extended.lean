import LongMode.Decode.Opcode.Evex
import LongMode.Decode.Opcode.Vex
import LongMode.Decode.Opcode.Xop

/-!
Encodings that exist but are never executed: those behind VEX, EVEX and XOP prefixes, and the
operations of 3DNow!, whose opcode is the last byte. For these it is only decided whether there is
an instruction and how long it is. The prefixes differ in their layout; what an opcode asks of
their fields is in the tables of shapes.
-/

set_option autoImplicit false
set_option relaxedAutoImplicit false

namespace LongMode.Decode.Extended

/-- The selecting prefix that the low two bits of an extended prefix stand for. -/
def selectorOf (bits : Nat) : Selector :=
  match bits % 4 with
  | 0 => .none
  | 1 => .p66
  | 2 => .pF3
  | _ => .pF2

/-- What a clear bit of an extended prefix adds to a register number in 64-bit code. -/
def highPart (is64 : Bool) (byte bit value : Nat) : Nat :=
  if is64 && !byte.testBit bit then value else 0

/-- The number in the source field of an extended prefix, of which all bits are complemented. -/
def sourceOf (byte : Nat) : Nat :=
  15 - byte / 8 % 16

/-- Prefixes that do not go together with an extended encoding. -/
def forbidden (c : Context) : Bool :=
  let p := c.prefixes
  p.lock || p.repetition.isSome || p.operandSize || p.rex.isSome

/-- The length of the constant at the end of an instruction of a map behind VEX or EVEX. -/
def constantBytes (map op : Nat) : Nat :=
  let inFirst := 0x70 ≤ op ∧ op ≤ 0x73 ∨ op = 0xc2 ∨ 0xc4 ≤ op ∧ op ≤ 0xc6
  if map = 3 ∨ map = 1 ∧ inFirst then 1 else 0

/-- The length of the constant at the end of an instruction of a map behind XOP. -/
def xopConstantBytes : Nat → Nat
  | 8 => 1
  | 10 => 4
  | _ => 0

/-- Read the address behind a ModRM byte and keep its index field, if there is one. -/
def readIndex (c : Context) (m : ModRm) : Reader (Option Nat) := do
  if m.isMemory ∧ c.addressSize ≠ .word ∧ m.rm = 4 then
    let sib ← Reader.next
    let _ ← c.readScaledAddress m sib
    return some (sib / 8 % 8)
  else
    let _ ← c.readPlace m
    return none

/-- Read the rest of an instruction of some shape, given the length of its constant. -/
def readShaped (c : Context) (p : ExtendedPrefix) (shapes : List Shape) (constant : Nat) :
    Reader Unit := do
  if shapes.isEmpty then .reject
  else if shapes.any fun s => s.place == .absent && s.fitsSecond p then return
  else
    let m := ModRm.ofByte (← Reader.next)
    let fitting := shapes.filter fun s => s.fits p m
    if fitting.isEmpty then .reject
    else
      let index ← readIndex c m
      if fitting.any fun s => s.fitsAddress p m index then
        let _ ← Reader.number constant
      else .reject

/-- Read an opcode and the rest of an instruction behind the fields of an extended prefix. -/
def readMapped (c : Context) (p : ExtendedPrefix) (rows : List ShapeRow) (constant : Nat → Nat) :
    Reader Unit := do
  let op ← Reader.next
  readShaped c p (shapesOf rows op) (constant op)

/-- The fields of a long VEX or of an XOP prefix, from its last two bytes. -/
def longPrefix (is64 : Bool) (second third : Nat) : ExtendedPrefix :=
  { is64
    map := second % 32
    selector := selectorOf third
    wide := third.testBit 7
    length := third / 4 % 2
    source := sourceOf third
    regHigh := highPart is64 second 7 8
    indexHigh := highPart is64 second 6 8
    rmHigh := highPart is64 second 5 8 }

/-- The fields of a short VEX prefix, from its last byte. It leaves out all that is common in the
first map. -/
def shortPrefix (is64 : Bool) (second : Nat) : ExtendedPrefix :=
  { is64
    map := 1
    selector := selectorOf second
    wide := false
    length := second / 4 % 2
    source := sourceOf second
    regHigh := highPart is64 second 7 8
    indexHigh := 0
    rmHigh := 0 }

/-- The fields of an EVEX prefix, from its last three bytes. A register number has up to five bits;
the index of a vector shares its fifth bit with the second source. -/
def evexPrefix (is64 : Bool) (second third fourth : Nat) : ExtendedPrefix :=
  let sourceHigh := if fourth.testBit 3 then 0 else 16
  { is64
    map := second % 8
    selector := selectorOf third
    wide := third.testBit 7
    length := fourth / 32 % 4
    source := sourceOf third + sourceHigh
    regHigh := highPart is64 second 7 8 + highPart is64 second 4 16
    indexHigh := highPart is64 second 6 8 + sourceHigh
    rmHigh := highPart is64 second 5 8 + highPart is64 second 6 16
    control := fourth.testBit 4
    zeroing := fourth.testBit 7
    mask := fourth % 8 }

/-- Whether the fixed bits of an EVEX prefix are as they have to be, and its fields make sense in
the mode of the code and together. -/
def evexIsWellFormed (p : ExtendedPrefix) (second third : Nat) : Bool :=
  !second.testBit 3 && third.testBit 2
    && (p.is64 || p.source < 16)
    && !(p.zeroing && p.mask == 0)

/-- Read an instruction behind the short or long VEX prefix, of which the second byte is read. -/
def readVex (c : Context) (long : Bool) (second : Nat) : Reader Unit := do
  let p ←
    if long then
      let third ← Reader.next
      pure (longPrefix c.is64 second third)
    else pure (shortPrefix c.is64 second)
  if forbidden c then .reject
  else readMapped c p (Vex.rows p.map p.selector) (constantBytes p.map)

/-- Read an instruction behind the EVEX prefix, of which the second byte is read. -/
def readEvex (c : Context) (second : Nat) : Reader Unit := do
  let third ← Reader.next
  let fourth ← Reader.next
  let p := evexPrefix c.is64 second third fourth
  if forbidden c || !evexIsWellFormed p second third then .reject
  else readMapped c p (Evex.rows p.map p.selector) (constantBytes p.map)

/-- Read an instruction behind the XOP prefix, of which the second byte is read. -/
def readXop (c : Context) (second : Nat) : Reader Unit := do
  let third ← Reader.next
  let p := longPrefix c.is64 second third
  if forbidden c || p.selector != .none then .reject
  else readMapped c p (Xop.rows p.map) fun _ => xopConstantBytes p.map

/-- The opcodes of 3DNow!. -/
def packedFloatOpcodes : List Nat :=
  [0x0c, 0x0d, 0x1c, 0x1d, 0x8a, 0x8e, 0x90, 0x94, 0x96, 0x97, 0x9a, 0x9e, 0xa0, 0xa4, 0xa6, 0xa7,
    0xaa, 0xae, 0xb0, 0xb4, 0xb6, 0xb7, 0xbb, 0xbf]

/-- Read an instruction of 3DNow!. -/
def readPackedFloat (c : Context) : Reader Unit := do
  let _ ← c.readPlace (.ofByte (← Reader.next))
  let op ← Reader.next
  if packedFloatOpcodes.contains op && !c.prefixes.lock then return else .reject

end LongMode.Decode.Extended
