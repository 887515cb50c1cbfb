import LongMode.Decode.Mnemonic

/-!
Integer arithmetic with flags, for words of any width. Every operation takes the flag word and
returns the result together with the new flag word; flags that it does not name keep their value.
-/

set_option autoImplicit false
set_option relaxedAutoImplicit false

namespace LongMode.Alu

variable {n : Nat}

/-- Whether the number of ones in the low byte is even. -/
def evenParity (v : BitVec n) : Bool :=
  (List.range 8).foldl (fun even i => even ^^ v.getLsbD i) true

/-- Set the zero, sign and parity flags from a result. -/
def setResult (f : Flags) (r : BitVec n) : Flags :=
  ((f.set .zero (r == 0)).set .sign r.msb).set .parity (evenParity r)

/-- The sum of two words and a carry. Carry is the unsigned carry out, overflow the signed one, and
adjust the carry out of the low four bits. -/
def add (f : Flags) (a b : BitVec n) (carry : Bool) : BitVec n × Flags :=
  let r := a + b + (BitVec.ofBool carry).setWidth n
  let f := f.set .carry (decide (1 <<< n ≤ a.toNat + b.toNat + carry.toNat))
  let f := f.set .overflow ((a ^^^ r) &&& (b ^^^ r)).msb
  let f := f.set .adjust ((a ^^^ b ^^^ r).getLsbD 4)
  (r, setResult f r)

/-- The difference of two words less a borrow. Carry is the unsigned borrow. -/
def sub (f : Flags) (a b : BitVec n) (borrow : Bool) : BitVec n × Flags :=
  let r := a - b - (BitVec.ofBool borrow).setWidth n
  let f := f.set .carry (decide (a.toNat < b.toNat + borrow.toNat))
  let f := f.set .overflow ((a ^^^ b) &&& (a ^^^ r)).msb
  let f := f.set .adjust ((a ^^^ b ^^^ r).getLsbD 4)
  (r, setResult f r)

/-- A bitwise result: carry, overflow and adjust are cleared. -/
def logic (f : Flags) (r : BitVec n) : BitVec n × Flags :=
  (r, setResult (f.clear [.carry, .overflow, .adjust]) r)

/-- Keep the carry flag of `before` and take every other flag from an outcome. -/
def keepCarry (before : Flags) (outcome : BitVec n × Flags) : BitVec n × Flags :=
  (outcome.1, outcome.2.set .carry (before.get .carry))

/-- One more; the carry flag is left alone. -/
def increment (f : Flags) (a : BitVec n) : BitVec n × Flags :=
  keepCarry f (add f a 1 false)

/-- One less; the carry flag is left alone. -/
def decrement (f : Flags) (a : BitVec n) : BitVec n × Flags :=
  keepCarry f (sub f a 1 false)

/-- The difference from zero; carry tells that the operand is not zero. -/
def negate (f : Flags) (a : BitVec n) : BitVec n × Flags :=
  let (r, f) := sub f 0 a false
  (r, f.set .carry (a != 0))

end LongMode.Alu

namespace LongMode

variable {n : Nat}

/-- The result and flags of a two-operand operation. -/
def AluOp.apply (op : AluOp) (f : Flags) (a b : BitVec n) : BitVec n × Flags :=
  match op with
  | .add => Alu.add f a b false
  | .adc => Alu.add f a b (f.get .carry)
  | .sub => Alu.sub f a b false
  | .sbb => Alu.sub f a b (f.get .carry)
  | .and => Alu.logic f (a &&& b)
  | .or => Alu.logic f (a ||| b)
  | .xor => Alu.logic f (a ^^^ b)

/-- The result and flags of a one-operand operation; the complement changes no flag. -/
def UnaryOp.apply (op : UnaryOp) (f : Flags) (a : BitVec n) : BitVec n × Flags :=
  match op with
  | .inc => Alu.increment f a
  | .dec => Alu.decrement f a
  | .neg => Alu.negate f a
  | .not => (~~~a, f)

/-- The flags that bit tests and counts of zeros clear. -/
def BitOp.cleared : List Flag :=
  [.overflow, .sign, .adjust, .parity]

/-- The result and flags of a bit operation: carry receives the old bit. -/
def BitOp.apply (op : BitOp) (f : Flags) (a : BitVec n) (bit : Nat) : BitVec n × Flags :=
  let mask := BitVec.twoPow n bit
  let f := (f.clear BitOp.cleared).set .carry (a.getLsbD bit)
  match op with
  | .test => (a, f)
  | .set => (a ||| mask, f)
  | .reset => (a &&& ~~~mask, f)
  | .complement => (a ^^^ mask, f)

end LongMode
