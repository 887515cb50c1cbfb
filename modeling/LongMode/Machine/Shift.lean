import LongMode.Machine.Alu
import LongMode.Machine.Fault

/-!
Shifts and rotates with flags. A count of zero changes neither the operand nor a flag. Shifts put
the last bit shifted out into the carry flag, clear adjust and set the result flags; rotates change
carry and overflow only. Operands have 64 bits at most and are moved in words of 64 or 128 bits,
which cannot be shifted by as many bits as they have.
-/

set_option autoImplicit false
set_option relaxedAutoImplicit false

namespace LongMode

namespace Shift

variable {n : Nat}

/-- A raw count as instructions of a width use it: modulo 64 for quadwords, otherwise modulo 32. -/
def maskedCount (w : Width) (count : Nat) : Nat :=
  count % (if w = .qword then 64 else 32)

/-- The flags of a shift with a given result, last bit out and overflow. -/
def flags (f : Flags) (r : BitVec n) (carry overflow : Bool) : Flags :=
  Alu.setResult (((f.set .carry carry).set .overflow overflow).set .adjust false) r

/-- A shift to the left, in a word with room for the bits that leave the operand. -/
def left (f : Flags) (v : BitVec n) (count : Nat) : BitVec n × Flags :=
  let wide := v.setWidth 128 <<< count
  let r := wide.setWidth n
  (r, flags f r (wide.getLsbD n) (r ^^^ v).msb)

/-- A shift to the right that brings in zeros. -/
def right (f : Flags) (v : BitVec n) (count : Nat) : BitVec n × Flags :=
  let r := if 64 ≤ count then 0 else (v.setWidth 64 >>> count).setWidth n
  let last := if 64 < count then false else (v.setWidth 128 >>> (count - 1)).getLsbD 0
  (r, flags f r last (r ^^^ v).msb)

/-- A shift to the right that brings in the sign; overflow is cleared. -/
def arithmetic (f : Flags) (v : BitVec n) (count : Nat) : BitVec n × Flags :=
  let wide := v.signExtend 64
  let r := (wide.sshiftRight (min count 63)).setWidth n
  (r, flags f r ((wide.sshiftRight (min (count - 1) 63)).getLsbD 0) false)

/-- A word turned to the left by less than its width. -/
def turn (v : BitVec n) (count : Nat) : BitVec n :=
  if count = 0 then v
  else
    let wide := v.setWidth 64
    (wide <<< count ||| wide >>> (n - count)).setWidth n

/-- A rotation to the left: carry is the bit that arrives at the low end. -/
def rotateLeft (f : Flags) (v : BitVec n) (count : Nat) : BitVec n × Flags :=
  let r := turn v (count % n)
  let carry := r.getLsbD 0
  (r, (f.set .carry carry).set .overflow (r.msb ^^ carry))

/-- A rotation to the right: carry is the bit that arrives at the high end. -/
def rotateRight (f : Flags) (v : BitVec n) (count : Nat) : BitVec n × Flags :=
  let r := turn v ((n - count % n) % n)
  (r, (f.set .carry r.msb).set .overflow (r.msb ^^ r.getLsbD (n - 2)))

/-- What a shift of a word of 128 bits gives. The amount has to be less than 128. -/
def ranged (amount : Nat) (shifted : BitVec 128) : Except Panic (BitVec 128) :=
  if amount < 128 then .ok shifted else .error .shiftOverflow

/-- A shift that takes the bits it brings in from a second operand. The pair of operands is put
together, and shifted, as one word of 128 bits. The last bit that leaves the destination is brought
down by a shift of its own; to the left that is one by twice the operand width, which for quadwords
is out of range. -/
def double (toLeft : Bool) (f : Flags) (dest src : BitVec n) (count : Nat) :
    Except Panic (BitVec n × Flags) :=
  if count = 0 then .ok (dest, f)
  else if toLeft then do
    let pair := (← ranged n (dest.setWidth 128 <<< n)) ||| src.setWidth 128
    let shifted ← ranged count (pair <<< count)
    let r := (← ranged n (shifted >>> n)).setWidth n
    let last ← ranged (n + n) (shifted >>> (n + n))
    return (r, flags f r (last.getLsbD 0) (r ^^^ dest).msb)
  else do
    let pair := (← ranged n (src.setWidth 128 <<< n)) ||| dest.setWidth 128
    let r := (← ranged count (pair >>> count)).setWidth n
    let last ← ranged (count - 1) (pair >>> (count - 1))
    return (r, flags f r (last.getLsbD 0) (r ^^^ dest).msb)

end Shift

/-- The result and flags of a shift or rotate by a masked count. -/
def ShiftOp.apply {n : Nat} (op : ShiftOp) (f : Flags) (v : BitVec n) (count : Nat) :
    BitVec n × Flags :=
  if count = 0 then (v, f)
  else
    match op with
    | .shl | .sal => Shift.left f v count
    | .shr => Shift.right f v count
    | .sar => Shift.arithmetic f v count
    | .rol => Shift.rotateLeft f v count
    | .ror => Shift.rotateRight f v count

end LongMode
