import LongMode.Machine.Basic
import LongMode.Machine.Shift

/-!
Instructions for integer arithmetic: addition and its relatives, shifts, multiplication and
division. Multiplication and division work on a pair of registers that holds a word of twice the
operand width; for bytes the pair is the two low bytes of the accumulator.
-/

set_option autoImplicit false
set_option relaxedAutoImplicit false

namespace LongMode.Exec

/-- A two-operand operation. With `store` unset only the flags change. -/
def binary (op : AluOp) (store : Bool) (i : Instruction) : Exec Unit := do
  let dst ← i.operand 0
  let src ← i.operand 1
  let w ← dst.width
  let b ← readOperand src w
  update dst w store fun f a => op.apply f a b

/-- A one-operand operation. -/
def unary (op : UnaryOp) (i : Instruction) : Exec Unit := do
  let dst ← i.operand 0
  let w ← dst.width
  update dst w true op.apply

/-- A shift or rotate. -/
def shift (op : ShiftOp) (i : Instruction) : Exec Unit := do
  let dst ← i.operand 0
  let w ← dst.width
  let count := Shift.maskedCount w (← readOperand (← i.operand 1) .byte).toNat
  if count ≠ 0 then update dst w true fun f v => op.apply f v count

/-- A shift that takes bits from a second operand. -/
def doubleShift (left : Bool) (i : Instruction) : Exec Unit := do
  let dst ← i.operand 0
  let w ← dst.width
  let src ← readOperand (← i.operand 1) w
  let count := Shift.maskedCount w (← readOperand (← i.operand 2) .byte).toNat
  if count ≠ 0 then tryUpdate dst w true fun f v => Shift.double left f v src count

/-! ### Multiplication -/

/-- Store a word of twice the operand width: in AX for bytes, otherwise in the data register and the
accumulator. -/
def setPair (w : Width) (low high : BitVec w.bits) : Exec Unit :=
  if w = .byte then setGeneralLow Register.rax .word ((high ++ low).setWidth _)
  else do
    setGeneralLow Register.rax w low
    setGeneralLow Register.rdx w high

/-- The flags of a product: carry and overflow tell that it does not fit the low half, the result
flags describe the low half, and adjust is cleared. -/
def productFlags {n : Nat} (f : Flags) (low : BitVec n) (overflow : Bool) : Flags :=
  Alu.setResult (((f.set .carry overflow).set .overflow overflow).set .adjust false) low

/-- The low half of a word of twice the width. -/
def lowHalf {n : Nat} (v : BitVec (n + n)) : BitVec n :=
  v.setWidth n

/-- The high half of a word of twice the width. -/
def highHalf {n : Nat} (v : BitVec (n + n)) : BitVec n :=
  (v >>> n).setWidth n

/-- The signed product of two words. -/
def signedProduct {n : Nat} (a b : BitVec n) : BitVec (n + n) :=
  a.signExtend (n + n) * b.signExtend (n + n)

/-- Whether a signed word of twice the width exceeds its low half. -/
def exceedsSigned {n : Nat} (product : BitVec (n + n)) : Bool :=
  (lowHalf product).signExtend (n + n) != product

/-- Unsigned multiplication of the accumulator. -/
def mul (i : Instruction) : Exec Unit := do
  let src ← i.operand 0
  let w ← src.width
  let b ← readOperand src w
  let a ← generalLow Register.rax w
  let product := a.setWidth (w.bits + w.bits) * b.setWidth (w.bits + w.bits)
  setPair w (lowHalf product) (highHalf product)
  modifyFlags (productFlags · (lowHalf product) (highHalf product != 0))

/-- Signed multiplication of the accumulator. -/
def imulPair (i : Instruction) : Exec Unit := do
  let src ← i.operand 0
  let w ← src.width
  let b ← readOperand src w
  let product := signedProduct (← generalLow Register.rax w) b
  setPair w (lowHalf product) (highHalf product)
  modifyFlags (productFlags · (lowHalf product) (exceedsSigned product))

/-- Signed multiplication of two operands, of which the low half is kept. -/
def imulLow (i : Instruction) (first second : Nat) : Exec Unit := do
  let dst ← i.operand 0
  let w ← dst.width
  let a ← readOperand (← i.operand first) w
  let b ← readOperand (← i.operand second) w
  let product := signedProduct a b
  writeOperand dst w (lowHalf product)
  modifyFlags (productFlags · (lowHalf product) (exceedsSigned product))

/-- Signed multiplication in its three forms. -/
def imul (i : Instruction) : Exec Unit :=
  match i.operands.length with
  | 1 => imulPair i
  | 2 => imulLow i 0 1
  | 3 => imulLow i 1 2
  | _ => unsupported

/-! ### Division -/

/-- The word of twice the operand width that is divided. -/
def dividend (w : Width) : Exec (BitVec (w.bits + w.bits)) := do
  let low ← general Register.rax
  let high ← general Register.rdx
  return if w = .byte then low.setWidth _ else high.setWidth w.bits ++ low.setWidth w.bits

/-- Store quotient and remainder, and clear the status flags. -/
def setQuotient (w : Width) (quotient remainder : BitVec w.bits) : Exec Unit := do
  setPair w quotient remainder
  modifyFlags (·.clear Flag.status)

/-- Unsigned division. -/
def div (i : Instruction) : Exec Unit := do
  let src ← i.operand 0
  let w ← src.width
  let d ← readOperand src w
  if d = 0 then fault .divideByZero
  let n ← dividend w
  let quotient := n.toNat / d.toNat
  if w.modulus ≤ quotient then fault .quotientOverflow
  setQuotient w (BitVec.ofNat _ quotient) (BitVec.ofNat _ (n.toNat % d.toNat))

/-- Signed division; the quotient is rounded toward zero. -/
def idiv (i : Instruction) : Exec Unit := do
  let src ← i.operand 0
  let w ← src.width
  let d ← readOperand src w
  if d = 0 then fault .divideByZero
  let n ← dividend w
  let quotient := n.toInt.tdiv d.toInt
  let half : Int := w.modulus / 2
  if quotient < -half ∨ half ≤ quotient then fault .quotientOverflow
  setQuotient w (BitVec.ofInt _ quotient) (BitVec.ofInt _ (n.toInt.tmod d.toInt))

end LongMode.Exec
