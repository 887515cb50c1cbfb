import LongMode.Machine.Vector

/-!
Floating-point instructions. Arithmetic is that of double precision, rounded to single where the
format asks for it, which gives the correctly rounded result for the basic operations and the square
root. Minimum and maximum are comparisons that return the bits of an operand. Exceptions are masked;
two sticky bits of the control word tell of invalid and of inexact conversions.

A conversion to an integer goes through the exact value of the number, a fraction over a power of
two.
-/

set_option autoImplicit false
set_option relaxedAutoImplicit false

namespace LongMode

/-- How an exact value becomes an integer. -/
inductive Rounding where
  | nearestEven
  | down
  | up
  | towardZero
  deriving DecidableEq, Repr

namespace Rounding

/-- The rounding that the control word selects. -/
def ofControl (mxcsr : BitVec 32) : Rounding :=
  match (mxcsr >>> 13).toNat % 4 with
  | 0 => nearestEven
  | 1 => down
  | 2 => up
  | _ => towardZero

/-- The integer for a fraction with a positive denominator. -/
def apply (r : Rounding) (numerator : Int) (denominator : Nat) : Int :=
  let floor := numerator / denominator
  let rest := numerator % denominator
  if rest = 0 then floor
  else
    match r with
    | down => floor
    | up => floor + 1
    | towardZero => if numerator < 0 then floor + 1 else floor
    | nearestEven =>
      if 2 * rest < denominator then floor
      else if denominator < 2 * rest then floor + 1
      else if floor % 2 = 0 then floor
      else floor + 1

end Rounding

/-- The exact value of a finite number: a numerator over a power of two. -/
structure ExactValue where
  /-- The numerator. -/
  numerator : Int
  /-- The denominator, a power of two. -/
  denominator : Nat
  deriving DecidableEq, Repr

namespace ExactValue

/-- The exact value of a double-precision number; infinities and NaNs have none. -/
def ofDouble? (bits : BitVec 64) : Option ExactValue :=
  let exponent := (bits.extractLsb' 52 11).toNat
  let fraction := (bits.extractLsb' 0 52).toNat
  if exponent = 2047 then none
  else
    let mantissa : Int := if exponent = 0 then fraction else 0x10000000000000 + fraction
    let signed := if bits.msb then -mantissa else mantissa
    let scale := max exponent 1
    some <|
      if 1075 ≤ scale then ⟨signed <<< (scale - 1075), 1⟩ else ⟨signed, 1 <<< (1075 - scale)⟩

/-- Whether a value is an integer. -/
def isInteger (v : ExactValue) : Bool :=
  v.numerator % v.denominator == 0

end ExactValue

namespace Precision

/-- The width of a number. -/
def width : Precision → Width
  | single => .dword
  | double => .qword

/-- The number that bits stand for, in double precision. -/
def toFloat (p : Precision) (bits : BitVec p.width.bits) : Float :=
  match p with
  | single => (Float32.ofBits (UInt32.ofBitVec (bits.setWidth 32))).toFloat
  | double => Float.ofBits (UInt64.ofBitVec (bits.setWidth 64))

/-- The bits of a number in this precision. -/
def ofFloat (p : Precision) (x : Float) : BitVec p.width.bits :=
  match p with
  | single => x.toFloat32.toBits.toBitVec.setWidth _
  | double => x.toBits.toBitVec.setWidth _

/-- The bits of an integer in this precision. -/
def ofInt64 (p : Precision) (n : BitVec 64) : BitVec p.width.bits :=
  match p with
  | single => (Int64.ofBitVec n).toFloat32.toBits.toBitVec.setWidth _
  | double => (Int64.ofBitVec n).toFloat.toBits.toBitVec.setWidth _

/-- The exact value that bits stand for. -/
def exactValue? (p : Precision) (bits : BitVec p.width.bits) : Option ExactValue :=
  ExactValue.ofDouble? (p.toFloat bits).toBits.toBitVec

/-- The number of fraction bits. -/
def fractionBits : Precision → Nat
  | single => 23
  | double => 52

/-- Whether bits are a NaN. -/
def isNaN (p : Precision) (bits : BitVec p.width.bits) : Bool :=
  let half := p.width.modulus / 2
  let magnitude := bits.toNat % half
  let infinity := half - 1 <<< p.fractionBits
  decide (infinity < magnitude)

/-- Whether bits are a NaN that signals. -/
def isSignalling (p : Precision) (bits : BitVec p.width.bits) : Bool :=
  p.isNaN bits && !bits.getLsbD (p.fractionBits - 1)

end Precision

/-- One lane of a floating-point operation. Minimum and maximum return the second operand unless the
first one is strictly less or greater. -/
def FloatOp.apply (op : FloatOp) (p : Precision) (a b : BitVec p.width.bits) :
    BitVec p.width.bits :=
  let x := p.toFloat a
  let y := p.toFloat b
  match op with
  | .add => p.ofFloat (x + y)
  | .sub => p.ofFloat (x - y)
  | .mul => p.ofFloat (x * y)
  | .div => p.ofFloat (x / y)
  | .min => if x < y then a else b
  | .max => if y < x then a else b
  | .sqrt => p.ofFloat y.sqrt

/-- The predicate that a three-bit code stands for: equal, less, less or equal, unordered, and their
opposites. -/
def floatRelation (code : Nat) (x y : Float) : Bool :=
  match code % 8 with
  | 0 => x == y
  | 1 => x < y
  | 2 => x ≤ y
  | 3 => x.isNaN || y.isNaN
  | 4 => x != y
  | 5 => !(decide (x < y))
  | 6 => !(decide (x ≤ y))
  | _ => !(x.isNaN || y.isNaN)

namespace Exec

/-- The bit of the control word that tells of an invalid operation. -/
def invalidBit : BitVec 32 := 0x1

/-- The bit of the control word that tells of an inexact result. -/
def inexactBit : BitVec 32 := 0x20

/-- Set a sticky bit of the control word if a condition holds. -/
def signal (bit : BitVec 32) (condition : Bool) : Exec Unit :=
  if condition then modifyRegisters fun r => { r with mxcsr := r.mxcsr ||| bit } else pure ()

/-- Floating-point arithmetic on one number or on all lanes. -/
def floatArithmetic (op : FloatOp) (vectors : Bool) (p : Precision) (i : Instruction) :
    Exec Unit := do
  let d ← vectorIndex (← i.operand 0)
  let src ← i.operand 1
  if vectors then
    let b ← readVector src true
    setVector d (Vector128.zip p.width (op.apply p) (← vector d) b)
  else
    let b ← readLow src p.width
    let old ← vector d
    setVector d (old.withLowLane p.width (op.apply p (old.lane p.width 0) b))

/-- A comparison into the zero, parity and carry flags; the other status flags are cleared. An
ordered comparison is invalid on every NaN, an unordered one only on those that signal. -/
def floatFlags (ordered : Bool) (p : Precision) (i : Instruction) : Exec Unit := do
  let a := (← vector (← vectorIndex (← i.operand 0))).lane p.width 0
  let b ← readLow (← i.operand 1) p.width
  let unordered := p.isNaN a || p.isNaN b
  signal invalidBit (ordered && unordered || p.isSignalling a || p.isSignalling b)
  let x := p.toFloat a
  let y := p.toFloat b
  modifyFlags fun f =>
    (((f.clear Flag.status).set .zero (unordered || x == y)).set .parity unordered).set .carry
      (unordered || x < y)

/-- A comparison into a mask. -/
def floatMask (vectors : Bool) (p : Precision) (i : Instruction) : Exec Unit := do
  let d ← vectorIndex (← i.operand 0)
  let src ← i.operand 1
  let code ← constant i 2
  let compare (a b : BitVec p.width.bits) : BitVec p.width.bits :=
    Vector128.maskOf (floatRelation code (p.toFloat a) (p.toFloat b))
  if vectors then
    let b ← readVector src true
    setVector d (Vector128.zip p.width compare (← vector d) b)
  else
    let b ← readLow src p.width
    let old ← vector d
    setVector d (old.withLowLane p.width (compare (old.lane p.width 0) b))

/-- A conversion of a signed integer to a number. -/
def intToFloat (p : Precision) (i : Instruction) : Exec Unit := do
  let d ← vectorIndex (← i.operand 0)
  let src ← i.operand 1
  let w ← src.width
  let value := (← readOperand src w).signExtend 64
  let bits := p.ofInt64 value
  signal inexactBit ((p.exactValue? bits).any fun v => v.numerator != value.toInt * v.denominator)
  setVector d ((← vector d).withLowLane p.width bits)

/-- The integer for a number, if it has one that fits the width. -/
def roundTo? (r : Rounding) (w : Width) (v : ExactValue) : Option Int :=
  let n := r.apply v.numerator v.denominator
  let half : Int := w.modulus / 2
  if -half ≤ n ∧ n < half then some n else none

/-- A conversion of a number to a signed integer. A number without one that fits is invalid and
becomes the least integer. -/
def floatToInt (truncate : Bool) (p : Precision) (i : Instruction) : Exec Unit := do
  let dst ← i.operand 0
  let w ← dst.width
  let bits ← readLow (← i.operand 1) p.width
  let control := (← registers).mxcsr
  let rounding := if truncate then .towardZero else Rounding.ofControl control
  let value := p.exactValue? bits
  match value.bind (roundTo? rounding w) with
  | some n =>
    signal inexactBit (value.any fun v => !v.isInteger)
    writeOperand dst w (BitVec.ofInt _ n)
  | none =>
    signal invalidBit true
    writeOperand dst w (BitVec.intMin _)

/-- The other precision. -/
def otherPrecision : Precision → Precision
  | .single => .double
  | .double => .single

/-- A conversion of a number to the other precision. -/
def changePrecision (source : Precision) (i : Instruction) : Exec Unit := do
  let target := otherPrecision source
  let d ← vectorIndex (← i.operand 0)
  let bits ← readLow (← i.operand 1) source.width
  setVector d ((← vector d).withLowLane target.width (target.ofFloat (source.toFloat bits)))

/-- Load the control word, of which only the low 16 bits may be set. -/
def loadControl (i : Instruction) : Exec Unit := do
  let value ← readOperand (← i.operand 0) .dword
  if 0x10000 ≤ value.toNat then fault .generalProtection
  modifyRegisters fun r => { r with mxcsr := value.setWidth 32 }

/-- Store the control word. -/
def storeControl (i : Instruction) : Exec Unit := do
  let value := (← registers).mxcsr
  writeOperand (← i.operand 0) .dword (value.setWidth _)

end Exec

end LongMode
