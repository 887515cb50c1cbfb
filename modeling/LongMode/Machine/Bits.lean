import LongMode.Machine.Alu
import LongMode.Machine.Basic

/-!
Instructions on single bits: tests that set, reset or complement a bit, scans for the first set bit,
counts, and the reversal of bytes. A bit test on memory with its offset in a register addresses a
string of bits of which the operand is the beginning.
-/

set_option autoImplicit false
set_option relaxedAutoImplicit false

namespace LongMode.Exec

/-- The element that a bit offset selects, and the bit in it. A register offset into memory is
signed and may leave the operand; every other offset is taken modulo the operand width. The address
is missing for a register. -/
def locateBit (dst src : Operand) (w : Width) : Exec (Option Address × Nat) := do
  let raw ← readOperand src w
  match dst, src with
  | .memory m, .register _ =>
    let element := raw.toInt / w.bits
    let a ← linear m
    return (some (a + BitVec.ofInt 64 (element * w.bytes)), (raw.toInt % w.bits).toNat)
  | .memory m, _ => return (some (← linear m), raw.toNat % w.bits)
  | _, _ => return (none, raw.toNat % w.bits)

/-- A bit test, and what it does to the bit. -/
def bit (op : BitOp) (i : Instruction) : Exec Unit := do
  let dst ← i.operand 0
  let src ← i.operand 1
  let w ← dst.width
  let (place, index) ← locateBit dst src w
  match place, dst with
  | some a, _ =>
    let (new, f) := op.apply (← flags) (← load a w) index
    if op ≠ .test then store a w new
    setFlags f
  | none, .register r =>
    let old := (← readRegister r).setWidth w.bits
    let (new, f) := op.apply (← flags) old index
    if op ≠ .test then writeRegister r (new.setWidth 64)
    setFlags f
  | none, _ => invalid

/-- The flags of a bit scan: zero tells that there was no bit, all other status flags are
cleared. -/
def scanFlags (f : Flags) (empty : Bool) : Flags :=
  (f.clear Flag.status).set .zero empty

/-- A scan for the lowest or highest set bit. Without one the destination keeps its value. -/
def scan (forward : Bool) (i : Instruction) : Exec Unit := do
  let dst ← i.operand 0
  let w ← dst.width
  let v ← readOperand (← i.operand 1) w
  modifyFlags (scanFlags · (v == 0))
  if v ≠ 0 then
    writeOperand dst w (if forward then v.ctz else BitVec.ofNat _ (w.bits - 1) - v.clz)

/-- A count of a property of the source, with the flags that follow from source and count. -/
def count (i : Instruction) (result : {n : Nat} → BitVec n → BitVec n)
    (flags : {n : Nat} → Flags → BitVec n → BitVec n → Flags) : Exec Unit := do
  let dst ← i.operand 0
  let w ← dst.width
  let v ← readOperand (← i.operand 1) w
  writeOperand dst w (result v)
  modifyFlags (flags · v (result v))

/-- The flags of a count of zeros: carry tells that there was no bit, zero that the count is
zero. -/
def zeroCountFlags {n : Nat} (f : Flags) (v result : BitVec n) : Flags :=
  ((f.clear BitOp.cleared).set .carry (v == 0)).set .zero (result == 0)

/-- The number of zeros below the lowest set bit. -/
def trailingZeros (i : Instruction) : Exec Unit :=
  count i BitVec.ctz zeroCountFlags

/-- The number of zeros above the highest set bit. -/
def leadingZeros (i : Instruction) : Exec Unit :=
  count i BitVec.clz zeroCountFlags

/-- The number of set bits. -/
def populationCount (i : Instruction) : Exec Unit :=
  count i BitVec.cpop fun f v _ => scanFlags f (v == 0)

/-- A word with its bytes in reverse order. -/
def swapBytes (w : Width) (v : BitVec w.bits) : BitVec w.bits :=
  BitVec.ofNat w.bits (LittleEndian.toNat (LittleEndian.ofNat w.bytes v.toNat).reverse)

/-- The reversal of the bytes of a register; not executed on words. -/
def byteSwap (i : Instruction) : Exec Unit := do
  let dst ← i.operand 0
  let w ← dst.width
  if w = .word then unsupported
  let v ← readOperand dst w
  writeOperand dst w (swapBytes w v)

end LongMode.Exec
