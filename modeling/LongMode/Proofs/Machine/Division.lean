import LongMode.Proofs.Machine.Chains
import LongMode.Proofs.Machine.Conditions
import LongMode.Proofs.Machine.Straight
import LongMode.Proofs.Register.File
import Mathlib.Algebra.Order.Ring.Abs

/-!
Products and quotients against the numbers that words stand for.

A word stands for a number, unsigned or signed (`number`), and `IsNumber` tells which numbers are
those of a word of `n` bits. A multiplication of the accumulator leaves the exact product in two
registers, and carry and overflow tell that it is no number of the lower one (`Rule.product`). A
division takes its dividend from the same two registers; it stops unless the quotient, rounded
toward zero, is a number of the operand width, and otherwise leaves quotient and remainder there
(`IsQuotient`).

* `number_product`, `exceeds_iff`: the product of two words, and when it is too wide;
* `Exec.exec_multiply`, `Exec.exec_divide`, `Exec.exec_imulLow`: what the instructions leave;
* `Machine.execute_multiply_divide`: all forms of both, and a division by the factor that was
  multiplied by, which takes the product back.
-/

set_option autoImplicit false
set_option relaxedAutoImplicit false

namespace LongMode

variable {n : Nat}

/-! ### The numbers that words stand for -/

/-- The number that a word stands for. -/
def number (signed : Bool) (v : BitVec n) : Int :=
  if signed then v.toInt else v.toNat

/-- Whether a number is that of a word of `n` bits. -/
def IsNumber (signed : Bool) (n : Nat) (value : Int) : Prop :=
  if signed then IsSigned n value else 0 ≤ value ∧ value < 2 ^ n

section Numbers

variable (signed : Bool)

theorem isNumber_number (hn : 0 < n) (v : BitVec n) : IsNumber signed n (number signed v) := by
  cases signed with
  | false =>
    have hlt : (v.toNat : Int) < 2 ^ n := mod_cast v.isLt
    exact ⟨Int.natCast_nonneg _, hlt⟩
  | true => exact Alu.isSigned_toInt hn v

theorem ofInt_number (v : BitVec n) : BitVec.ofInt n (number signed v) = v := by
  cases signed with
  | false =>
    change BitVec.ofInt n (v.toNat : Int) = v
    rw [BitVec.ofInt_natCast, BitVec.ofNat_toNat, BitVec.setWidth_eq]
  | true => exact BitVec.ofInt_toInt

variable {signed}

/-- A number of a word comes back from the word. -/
theorem number_ofInt (hn : 0 < n) {value : Int} (h : IsNumber signed n value) :
    number signed (BitVec.ofInt n value) = value := by
  cases signed with
  | false =>
    obtain ⟨hlow, hhigh⟩ := h
    have hmod : value % (2 ^ n : Nat) = value := by
      rw [natCast_two_pow]
      exact Int.emod_eq_of_lt hlow hhigh
    change ((BitVec.ofInt n value).toNat : Int) = value
    rw [BitVec.toNat_ofInt, hmod, Int.toNat_of_nonneg hlow]
  | true =>
    have hfull := Alu.two_mul_half hn
    have hcast := natCast_two_pow n
    obtain ⟨hlow, hhigh⟩ := h
    change (BitVec.ofInt n value).toInt = value
    rw [BitVec.toInt_ofInt]
    exact Int.bmod_eq_of_le (by omega) (by omega)

theorem number_eq_zero_iff {v : BitVec n} : number signed v = 0 ↔ v = 0 := by
  constructor
  · intro h
    rw [← ofInt_number signed v, h]
    rfl
  · rintro rfl
    cases signed with
    | false => simp [number]
    | true => simp [number]

theorem number_mul {x y : BitVec n} (hn : 0 < n)
    (h : IsNumber signed n (number signed x * number signed y)) :
    number signed (x * y) = number signed x * number signed y := by
  rw [← number_ofInt hn h, BitVec.ofInt_mul, ofInt_number, ofInt_number]

theorem not_isNumber_natCast (n value : Nat) : ¬IsNumber false n value ↔ 2 ^ n ≤ value := by
  change ¬(0 ≤ (value : Int) ∧ (value : Int) < 2 ^ n) ↔ _
  rw [← natCast_two_pow, Int.ofNat_lt, and_iff_right (Int.natCast_nonneg _), Nat.not_lt]

theorem not_isNumber_signed (n : Nat) (value : Int) :
    ¬IsNumber true n value ↔ value < -2 ^ (n - 1) ∨ 2 ^ (n - 1) ≤ value := by
  change ¬(-2 ^ (n - 1) ≤ value ∧ value < 2 ^ (n - 1)) ↔ _
  rw [not_and_or, Int.not_le, Int.not_lt]

theorem number_nonneg (v : BitVec n) : 0 ≤ number false v :=
  Int.natCast_nonneg _

/-- A number that is less than a number of a word in absolute value is that of a word itself. -/
theorem isNumber_of_natAbs_lt {x d : Int} (hd : IsNumber signed n d) (hlt : x.natAbs < d.natAbs)
    (hx : signed = false → 0 ≤ x) : IsNumber signed n x := by
  cases signed with
  | false =>
    obtain ⟨hlow, hhigh⟩ := hd
    exact ⟨hx rfl, by omega⟩
  | true =>
    obtain ⟨hlow, hhigh⟩ := hd
    exact ⟨by omega, by omega⟩

/-- The product of two numbers of `n` bits is a number of twice as many. -/
theorem isNumber_mul (hn : 0 < n) {x y : Int} (hx : IsNumber signed n x)
    (hy : IsNumber signed n y) : IsNumber signed (n + n) (x * y) := by
  cases signed with
  | false =>
    obtain ⟨hx, hx'⟩ := hx
    obtain ⟨hy, hy'⟩ := hy
    refine ⟨Int.mul_nonneg hx hy, ?_⟩
    rw [Int.pow_add]
    exact mul_lt_mul'' hx' hy' hx hy
  | true =>
    -- In absolute value both are at most half of `2 ^ n`.
    obtain ⟨hx, hx'⟩ := hx
    obtain ⟨hy, hy'⟩ := hy
    have hpos : (0 : Int) < 2 ^ (n - 1) := Int.pow_pos (by decide)
    have hhalf : (2 : Int) ^ (n + n - 1) = 2 * (2 ^ (n - 1) * 2 ^ (n - 1)) := by
      rw [← Int.pow_add, ← Int.pow_succ']
      congr 1
      omega
    have hbound : |x * y| ≤ 2 ^ (n - 1) * 2 ^ (n - 1) := by
      rw [abs_mul]
      exact mul_le_mul (abs_le.mpr ⟨hx, hx'.le⟩) (abs_le.mpr ⟨hy, hy'.le⟩) (abs_nonneg _) hpos.le
    have hsquare := Int.mul_pos hpos hpos
    obtain ⟨hlow, hhigh⟩ := abs_le.mp hbound
    rw [IsNumber, if_pos rfl, IsSigned, hhalf]
    omega

end Numbers

/-! ### Two registers that hold one word -/

namespace RegisterFile

/-- The register that holds the upper half of a word of twice a width, beside the accumulator. -/
def upperName : Width → Register
  | .byte => .highByteOfNumber 0
  | w => .general w Register.rdx

/-- The registers after the two halves of a word of twice a width were written: to AL and AH for
bytes, and otherwise to the accumulator and the data register. -/
def writePair? (r : RegisterFile) (w : Width) (low high : BitVec w.bits) : Option RegisterFile := do
  (← r.write? (.general w Register.rax) (low.setWidth 64)).write? (upperName w) (high.setWidth 64)

/-- The word of twice a width that registers hold: AX for bytes, and otherwise the data register and
the accumulator. -/
def pair (r : RegisterFile) (w : Width) : BitVec (w.bits + w.bits) :=
  if w = .byte then (r.get Register.rax).setWidth _
  else (r.get Register.rdx).setWidth w.bits ++ (r.get Register.rax).setWidth w.bits

/-- Writing AL and then AH is writing AX. -/
theorem mergePart_halves (old : BitVec 64) (low high : BitVec Width.byte.bits) :
    mergePart (mergePart old (low.setWidth 64) 0 .byte) (high.setWidth 64) 8 .byte =
      mergePart old ((high ++ low).setWidth 64) 0 .word := by
  refine BitVec.eq_of_getLsbD_eq fun i hi ↦ ?_
  have hbyte : Width.byte.bits = 8 := rfl
  have hword : Width.word.bits = 16 := rfl
  rw [getLsbD_mergePart _ _ _ (.inl rfl) (by decide),
    getLsbD_mergePart _ _ _ (.inl rfl) (by decide), getLsbD_mergePart _ _ _ (.inr rfl) (by decide)]
  simp only [BitVec.getLsbD_setWidth, BitVec.getLsbD_append, hbyte, hword]
  grind

/-- The registers after a word of twice a width was written: to AX for bytes, and otherwise to the
data register and the accumulator. -/
def setPair (r : RegisterFile) (w : Width) (low high : BitVec w.bits) : RegisterFile :=
  if w = .byte then r.setLow Register.rax .word ((high ++ low).setWidth 64)
  else
    (r.setLow Register.rax w (low.setWidth 64)).setLow Register.rdx w (high.setWidth 64)

theorem rflags_setPair (r : RegisterFile) (w : Width) (low high : BitVec w.bits) :
    (r.setPair w low high).rflags = r.rflags := by
  rw [setPair]
  split
  · rfl
  · rfl

/-- It makes no difference whether the halves are written by their own names. -/
theorem writePair?_eq (r : RegisterFile) (w : Width) (low high : BitVec w.bits) :
    r.writePair? w low high = some (r.setPair w low high) := by
  rw [setPair]
  split
  next hw =>
    subst hw
    let half := mergePart (r.get Register.rax) (low.setWidth 64) 0 .byte
    change some ((r.set Register.rax half).set Register.rax
      (mergePart ((r.set Register.rax half).get Register.rax) (high.setWidth 64) 8 .byte)) = _
    rw [get_set, if_pos rfl, mergePart_halves, set_set, setLow_eq]
  next hw =>
    have hupper : upperName w = .general w Register.rdx := by
      cases w with
      | byte => exact absurd rfl hw
      | word => rfl
      | dword => rfl
      | qword => rfl
    rw [writePair?, hupper, setLow_eq, setLow_eq]
    rfl

/-- A word that was written is found again. -/
theorem pair_setPair (r : RegisterFile) (w : Width) (low high : BitVec w.bits) :
    (r.setPair w low high).pair w = high ++ low := by
  rw [setPair, pair]
  split
  next hw =>
    subst hw
    rw [get_setLow, if_pos rfl]
    exact (setWidth_mergePart _ _ .word).trans (BitVec.setWidth_setWidth_of_le _ (by decide))
  next =>
    have hle : w.bits ≤ 64 := by cases w <;> decide
    have hother : Register.rdx ≠ Register.rax := by decide
    rw [get_setLow _ Register.rdx, if_pos rfl, get_setLow _ Register.rdx, if_neg hother,
      get_setLow _ Register.rax Register.rax, if_pos rfl, setWidth_mergePart, setWidth_mergePart,
      BitVec.setWidth_setWidth_of_le _ hle, BitVec.setWidth_setWidth_of_le _ hle,
      BitVec.setWidth_eq, BitVec.setWidth_eq]

end RegisterFile

/-! ### Products -/

namespace Exec

/-- A word extended to twice its width. -/
def widen (signed : Bool) (v : BitVec n) : BitVec (n + n) :=
  if signed then v.signExtend (n + n) else v.setWidth (n + n)

/-- Whether a word of twice the width stands for a number that its low half does not. -/
def exceeds (signed : Bool) (p : BitVec (n + n)) : Bool :=
  if signed then exceedsSigned p else highHalf p != 0

variable {signed : Bool}

theorem number_widen (v : BitVec n) : number signed (widen signed v) = number signed v := by
  cases signed with
  | false =>
    have hlt : v.toNat < 2 ^ (n + n) :=
      v.isLt.trans_le (Nat.pow_le_pow_right Nat.two_pos (Nat.le_add_right n n))
    change ((v.setWidth (n + n)).toNat : Int) = v.toNat
    rw [BitVec.toNat_setWidth, Nat.mod_eq_of_lt hlt]
  | true => exact BitVec.toInt_signExtend_of_le (Nat.le_add_right n n)

theorem number_product (signed : Bool) (hn : 0 < n) (a b : BitVec n) :
    number signed (widen signed a * widen signed b) = number signed a * number signed b := by
  rw [number_mul (Nat.add_pos_left hn n), number_widen, number_widen]
  rw [number_widen, number_widen]
  exact isNumber_mul hn (isNumber_number signed hn a) (isNumber_number signed hn b)

/-- The two halves of a word make it up. -/
theorem highHalf_append_lowHalf (p : BitVec (n + n)) : highHalf p ++ lowHalf p = p := by
  refine BitVec.eq_of_toNat_eq ?_
  have hlt : p.toNat / 2 ^ n < 2 ^ n := Nat.div_lt_of_lt_mul (by
    rw [← Nat.pow_add]
    exact p.isLt)
  rw [toNat_append, highHalf, lowHalf, BitVec.toNat_setWidth, BitVec.toNat_setWidth,
    BitVec.toNat_ushiftRight, Nat.shiftRight_eq_div_pow, Nat.mod_eq_of_lt hlt]
  exact Nat.div_add_mod' _ _

/-- A word of twice the width exceeds its low half just if its number is none of the half width. -/
theorem exceeds_iff (signed : Bool) (hn : 0 < n) (p : BitVec (n + n)) :
    exceeds signed p ↔ ¬IsNumber signed n (number signed p) := by
  cases signed with
  | false =>
    have hhigh : highHalf p = 0 ↔ p.toNat < 2 ^ n := by
      have happend := congrArg BitVec.toNat (highHalf_append_lowHalf p)
      have hlow := (lowHalf p).isLt
      rw [toNat_append] at happend
      rw [← BitVec.toNat_inj, ← happend]
      constructor
      · intro hzero
        rw [hzero]
        simpa using hlow
      · intro hlt
        by_contra hne
        have := Nat.le_mul_of_pos_left (2 ^ n) (Nat.pos_of_ne_zero hne)
        omega
    change (highHalf p != 0) = true ↔ ¬(0 ≤ (p.toNat : Int) ∧ (p.toNat : Int) < 2 ^ n)
    have hcast : (p.toNat : Int) < 2 ^ n ↔ p.toNat < 2 ^ n := by
      rw [← natCast_two_pow, Int.ofNat_lt]
    rw [bne_iff_ne, Ne, hhigh, hcast]
    exact not_congr (and_iff_right (Int.natCast_nonneg _)).symm
  | true =>
    have hlow : (lowHalf p).toInt = p.toInt.bmod (2 ^ n) := by
      rw [lowHalf, BitVec.toInt_setWidth, BitVec.toInt_eq_toNat_bmod, Int.bmod_bmod_of_dvd]
      exact Nat.pow_dvd_pow 2 (Nat.le_add_right n n)
    have hsame : (lowHalf p).signExtend (n + n) = p ↔ IsSigned n p.toInt := by
      rw [← BitVec.toInt_inj, BitVec.toInt_signExtend_of_le (Nat.le_add_right n n)]
      constructor
      · intro h
        rw [← h]
        exact Alu.isSigned_toInt hn _
      · intro h
        have hfit : number true (BitVec.ofInt n p.toInt) = p.toInt := number_ofInt hn h
        rw [hlow, ← BitVec.toInt_ofInt]
        exact hfit
    change (_ != _) = true ↔ _
    rw [bne_iff_ne, Ne, hsame]
    rfl

end Exec

/-- The exact product of two words of `n` bits; carry and overflow tell that it is no number of `n`
bits. -/
def Rule.product (signed : Bool) (a b : BitVec n) : Rule where
  result := number signed a * number signed b
  carry := ¬IsNumber signed n (number signed a * number signed b)
  overflow := ¬IsNumber signed n (number signed a * number signed b)
  adjust := False

namespace Exec

/-- The lower half of a word holds its number modulo the count of words of the half width. -/
theorem toNat_lowHalf (signed : Bool) (p : BitVec (n + n)) :
    ((lowHalf p).toNat : Int) = number signed p % 2 ^ n := by
  have hdvd : ((2 ^ n : Nat) : Int) ∣ (2 ^ (n + n) : Nat) :=
    Int.natCast_dvd_natCast.mpr (Nat.pow_dvd_pow 2 (Nat.le_add_right n n))
  have hpos : ((2 ^ (n + n) : Nat) : Int) ≠ 0 := mod_cast (Nat.two_pow_pos _).ne'
  have hp := congrArg BitVec.toNat (ofInt_number signed p)
  rw [BitVec.toNat_ofInt] at hp
  rw [lowHalf, BitVec.toNat_setWidth, ← hp, Int.natCast_mod,
    Int.toNat_of_nonneg (Int.emod_nonneg _ hpos), Int.emod_emod_of_dvd _ hdvd, natCast_two_pow]

/-- The lower half of a product and the flags follow the rule of the exact product. -/
theorem governs_productFlags (signed : Bool) (hn : 0 < n) (f : Flags) (a b : BitVec n) :
    (Rule.product signed a b).Governs f (lowHalf (widen signed a * widen signed b),
      productFlags f (lowHalf (widen signed a * widen signed b))
        (exceeds signed (widen signed a * widen signed b))) := by
  have hexact := number_product signed hn a b
  generalize widen signed a * widen signed b = p at hexact ⊢
  have hover := exceeds_iff signed hn p
  rw [hexact] at hover
  refine Rule.governs_setResult ?_ ?_ ?_ ?_ ?_
  · rw [toNat_lowHalf signed, hexact]
    rfl
  · simp only [Flags.get_set]
    exact hover
  · simp only [Flags.get_set]
    exact hover
  · simp [Flags.get_set, Rule.product]
  · exact (((Flags.Agree.refl _ f).set (by decide) _).set (by decide) _).set (by decide) _

end Exec

/-! ### Quotients -/

/-- Quotient and remainder of a division that rounds toward zero: the remainder is less than the
divisor in absolute value, and is zero or has the sign of the dividend. -/
structure IsQuotient (dividend divisor quotient remainder : Int) : Prop where
  exact : dividend = quotient * divisor + remainder
  remainder_lt : remainder.natAbs < divisor.natAbs
  sign : remainder = 0 ∨ remainder.sign = dividend.sign

theorem isQuotient_tdiv (x : Int) {d : Int} (hd : d ≠ 0) :
    IsQuotient x d (x.tdiv d) (x.tmod d) where
  exact := by
    rw [Int.mul_comm]
    exact (Int.mul_tdiv_add_tmod x d).symm
  remainder_lt := by
    rw [Int.natAbs_tmod]
    exact Nat.mod_lt _ (Int.natAbs_pos.mpr hd)
  sign := by
    by_cases hdvd : d ∣ x
    · exact .inl (Int.tmod_eq_zero_of_dvd hdvd)
    · exact .inr (by rw [Int.sign_tmod, if_neg hdvd])

/-! ### What the instructions do -/

instance (signed : Bool) (n : Nat) (value : Int) : Decidable (IsNumber signed n value) :=
  match signed with
  | true => inferInstanceAs (Decidable (IsSigned n value))
  | false => inferInstanceAs (Decidable (_ ∧ _))

/-- Multiplication of the accumulator, unsigned or signed. -/
def Mnemonic.multiply (signed : Bool) : Mnemonic :=
  if signed then imul else mul

/-- Division of the accumulator, unsigned or signed. -/
def Mnemonic.divide (signed : Bool) : Mnemonic :=
  if signed then idiv else div

/-- On a machine, an instruction without a lock prefix has a single operand of this value. -/
structure Instruction.Takes (i : Instruction) (m : Machine) {w : Width} (v : BitVec w.bits) :
    Prop where
  unlocked : i.prefixes.lock = false
  operand : ∃ o, i.operands = [o] ∧ o.width? = some w ∧ Ends (Exec.readOperand o w) m v m

namespace RegisterFile

open Exec

variable (r : RegisterFile) (signed : Bool) {w : Width}

/-- The product of the accumulator and a word. -/
def product (b : BitVec w.bits) : BitVec (w.bits + w.bits) :=
  widen signed ((r.get Register.rax).setWidth w.bits) * widen signed b

/-- The registers after the accumulator was multiplied. -/
def multiplied (b : BitVec w.bits) : RegisterFile :=
  { r.setPair w (lowHalf (r.product signed b)) (highHalf (r.product signed b)) with
    rflags := productFlags r.rflags (lowHalf (r.product signed b))
      (exceeds signed (r.product signed b)) }

/-- The quotient of the number in two registers, rounded toward zero. -/
def quotient (d : BitVec w.bits) : Int :=
  (number signed (r.pair w)).tdiv (number signed d)

/-- What the quotient leaves of the number in two registers. -/
def remainder (d : BitVec w.bits) : Int :=
  (number signed (r.pair w)).tmod (number signed d)

/-- The registers after the number in two of them was divided. -/
def divided (d : BitVec w.bits) : RegisterFile :=
  { r.setPair w (.ofInt _ (r.quotient signed d)) (.ofInt _ (r.remainder signed d)) with
    rflags := r.rflags.clear Flag.status }

/-- Divided by a factor, a product gives the other factor and no remainder. -/
theorem quotient_of_pair_eq {r r' : RegisterFile} {signed : Bool} {b : BitVec w.bits}
    (hbits : 0 < w.bits) (hpair : r'.pair w = r.product signed b) (hb : b ≠ 0) :
    r'.quotient signed b = number signed ((r.get Register.rax).setWidth w.bits) ∧
      r'.remainder signed b = 0 := by
  have hzero : number signed b ≠ 0 := mt number_eq_zero_iff.mp hb
  rw [quotient, remainder, hpair, product, number_product signed hbits]
  exact ⟨Int.mul_tdiv_cancel _ hzero, Int.mul_tmod_left _ _⟩

theorem quotient_false (d : BitVec w.bits) :
    r.quotient false d = ((r.pair w).toNat / d.toNat : Nat) :=
  (Int.ofNat_tdiv _ _).symm

theorem remainder_false (d : BitVec w.bits) :
    r.remainder false d = ((r.pair w).toNat % d.toNat : Nat) :=
  (Int.ofNat_tmod _ _).symm

end RegisterFile

namespace Exec

variable {signed : Bool} {i : Instruction} {m : Machine} {w : Width}

theorem exec_setPair (w : Width) (low high : BitVec w.bits) (m : Machine) :
    (setPair w low high).exec m =
      (.ok (), { m with registers := m.registers.setPair w low high }) := by
  rw [setPair, RegisterFile.setPair]
  split
  next hw =>
    subst hw
    rfl
  next => rfl

theorem exec_setPair_modifyFlags (w : Width) (low high : BitVec w.bits) (f : Flags → Flags)
    (m : Machine) :
    (setPair w low high >>= fun _ ↦ modifyFlags f).exec m =
      (.ok (), { m with registers :=
        { m.registers.setPair w low high with rflags := f m.registers.rflags } }) := by
  rw [exec_bind_of_ok (exec_setPair w low high m),
    ← RegisterFile.rflags_setPair m.registers w low high]
  rfl

/-- A multiplication leaves both halves of the product and the flags of the lower one. -/
theorem exec_multiply {b : BitVec w.bits} (hmnemonic : i.mnemonic = .multiply signed)
    (h : i.Takes m b) :
    ∃ effect, i.mnemonic.straight? i = some effect ∧
      effect.exec m = (.ok (), { m with registers := m.registers.multiplied signed b }) := by
  obtain ⟨o, ho, hw, hread⟩ := h.operand
  have hoperand : (i.operand 0).exec m = (.ok o, m) := exec_operand (by rw [ho]; rfl) m
  rw [hmnemonic]
  cases signed with
  | false =>
    refine ⟨_, rfl, ?_⟩
    rw [mul, exec_bind_of_ok hoperand, exec_bind_of_ok (exec_width hw m), exec_bind_of_ok hread,
      exec_bind_of_ok (exec_generalLow Register.rax w m)]
    exact exec_setPair_modifyFlags ..
  | true =>
    have himul : imul i = imulPair i := by
      rw [imul, ho]
      rfl
    refine ⟨_, rfl, ?_⟩
    rw [himul, imulPair, exec_bind_of_ok hoperand, exec_bind_of_ok (exec_width hw m),
      exec_bind_of_ok hread, exec_bind_of_ok (exec_generalLow Register.rax w m)]
    exact exec_setPair_modifyFlags ..

theorem exec_dividend (w : Width) (m : Machine) :
    (dividend w).exec m = (.ok (m.registers.pair w), m) := rfl

/-- A division refuses a zero divisor, then a quotient that is no number of the operand width, and
otherwise leaves quotient and remainder. -/
theorem exec_divide {d : BitVec w.bits} (hmnemonic : i.mnemonic = .divide signed)
    (h : i.Takes m d) :
    ∃ effect, i.mnemonic.straight? i = some effect ∧
      effect.exec m =
        if d = 0 then (.error (.fault .divideByZero), m)
        else if ¬IsNumber signed w.bits (m.registers.quotient signed d) then
          (.error (.fault .quotientOverflow), m)
        else (.ok (), { m with registers := m.registers.divided signed d }) := by
  obtain ⟨o, ho, hw, hread⟩ := h.operand
  have hoperand : (i.operand 0).exec m = (.ok o, m) := exec_operand (by rw [ho]; rfl) m
  have hmodulus : w.modulus = 2 ^ w.bits := by cases w <;> rfl
  rw [hmnemonic]
  cases signed with
  | false =>
    refine ⟨_, rfl, ?_⟩
    rw [div, exec_bind_of_ok hoperand, exec_bind_of_ok (exec_width hw m), exec_bind_of_ok hread]
    refine (exec_unless m).trans (if_congr Iff.rfl rfl ?_)
    rw [exec_bind_of_ok (exec_dividend w m)]
    refine (exec_unless m).trans (if_congr ?_ rfl ?_)
    · rw [RegisterFile.quotient_false, hmodulus]
      exact (not_isNumber_natCast _ _).symm
    · refine (exec_setPair_modifyFlags ..).trans ?_
      rw [RegisterFile.divided, RegisterFile.quotient_false, RegisterFile.remainder_false,
        BitVec.ofInt_natCast, BitVec.ofInt_natCast]
  | true =>
    refine ⟨_, rfl, ?_⟩
    rw [idiv, exec_bind_of_ok hoperand, exec_bind_of_ok (exec_width hw m), exec_bind_of_ok hread]
    refine (exec_unless m).trans (if_congr Iff.rfl rfl ?_)
    rw [exec_bind_of_ok (exec_dividend w m)]
    refine (exec_unless m).trans (if_congr ?_ rfl ?_)
    · have hhalf : ((w.modulus : Int) / 2) = 2 ^ (w.bits - 1) := by cases w <;> rfl
      rw [hhalf]
      exact (not_isNumber_signed _ _).symm
    · exact exec_setPair_modifyFlags ..

end Exec

/-! ### Multiplication and division as a whole -/

/-- On a machine, an instruction without a lock prefix has a general register of this name for its
destination, and these two factors. The first is in the destination if there are two operands. -/
structure Instruction.TakesTwo (i : Instruction) (m : Machine) (r : Register) {w : Width}
    (a b : BitVec w.bits) : Prop where
  unlocked : i.prefixes.lock = false
  width : (Operand.register r).width? = some w
  general : r.generalPart?.isSome
  operands : ∃ o o', (i.operands = [.register r, o'] ∧ o = .register r ∨
      i.operands = [.register r, o, o']) ∧
    Ends (Exec.readOperand o w) m a m ∧ Ends (Exec.readOperand o' w) m b m

/-- A multiplication of two operands leaves the lower half of the product and its flags. -/
theorem Exec.exec_imulLow {m : Machine} {i : Instruction} {r : Register} {w : Width}
    {a b : BitVec w.bits} (h : i.TakesTwo m r a b) :
    ∃ after, m.registers.write? r ((lowHalf (signedProduct a b)).setWidth 64) = some after ∧
      (imul i).exec m = (.ok (), { m with registers := { after with
        rflags := productFlags m.registers.rflags (lowHalf (signedProduct a b))
          (exceedsSigned (signedProduct a b)) } }) := by
  obtain ⟨o, o', hoperands, hfirst, hsecond⟩ := h.operands
  have himul : ∃ first second, imul i = imulLow i first second ∧
      (i.operand 0).exec m = (.ok (.register r), m) ∧ (i.operand first).exec m = (.ok o, m) ∧
      (i.operand second).exec m = (.ok o', m) := by
    rw [imul]
    obtain ⟨ho, rfl⟩ | ho := hoperands
    · refine ⟨0, 1, ?_, exec_operand ?_ m, exec_operand ?_ m, exec_operand ?_ m⟩ <;> rw [ho] <;> rfl
    · refine ⟨1, 2, ?_, exec_operand ?_ m, exec_operand ?_ m, exec_operand ?_ m⟩ <;> rw [ho] <;> rfl
  obtain ⟨first, second, himul, hdst, hoFirst, hoSecond⟩ := himul
  obtain ⟨after, hafter, hflags⟩ := m.registers.exists_write? h.general
    ((lowHalf (signedProduct a b)).setWidth 64)
  refine ⟨after, hafter, ?_⟩
  have hwrite : (writeOperand (.register r) w (lowHalf (signedProduct a b))).exec m =
      (.ok (), { m with registers := after }) := by
    rw [writeOperand, exec_writeRegister, hafter]
  rw [himul, imulLow, exec_bind_of_ok hdst, exec_bind_of_ok (exec_width h.width m),
    exec_bind_of_ok hoFirst, exec_bind_of_ok hfirst, exec_bind_of_ok hoSecond,
    exec_bind_of_ok hsecond, ← hflags]
  exact exec_bind_of_ok hwrite _

namespace Machine

open Exec

variable {m : Machine} {i : Instruction} {signed : Bool} {w : Width}

/-- What a division of the number in two registers does. -/
structure Divides (m : Machine) (i : Instruction) (signed : Bool) {w : Width} (d : BitVec w.bits) :
    Prop where
  byZero : m.StopsWith i .divideByZero ↔ d = 0
  overflow : m.StopsWith i .quotientOverflow ↔ d ≠ 0 ∧
    ¬IsNumber signed w.bits ((number signed (m.registers.pair w)).tdiv (number signed d))
  quotient : d ≠ 0 →
    IsNumber signed w.bits ((number signed (m.registers.pair w)).tdiv (number signed d)) →
    ∃ (q r : BitVec w.bits) (after : RegisterFile),
      IsQuotient (number signed (m.registers.pair w)) (number signed d) (number signed q)
        (number signed r) ∧
      m.registers.writePair? w q r = some after ∧
      m.CompletesWith i { after with rflags := m.registers.rflags.clear Flag.status }

/-- What a multiplication of the accumulator does. By `undone`, a division by the same factor that
follows on it leaves the accumulator as it was and no remainder. -/
structure Multiplies (m : Machine) (i : Instruction) (signed : Bool) {w : Width}
    (b : BitVec w.bits) : Prop where
  product : ∃ (low high : BitVec w.bits) (f : Flags) (after : RegisterFile),
    let a := (m.registers.get Register.rax).setWidth w.bits
    number signed (high ++ low) = number signed a * number signed b ∧
    (Rule.product signed a b).Governs m.registers.rflags (low, f) ∧
    m.registers.writePair? w low high = some after ∧
    m.CompletesWith i { after with rflags := f }
  undone : ∀ {done : Completion} {m' : Machine} {j : Instruction},
    (m.execute i).1 = .ok done → m'.registers = done.registers →
    j.mnemonic = .divide signed → j.Takes m' b → b ≠ 0 →
    ∃ after,
      m'.registers.writePair? w ((m.registers.get Register.rax).setWidth w.bits) 0 = some after ∧
      m'.CompletesWith j { after with rflags := m'.registers.rflags.clear Flag.status }

/-- What a multiplication of two operands does to its destination. -/
def MultipliesInto (m : Machine) (i : Instruction) (r : Register) {w : Width}
    (a b : BitVec w.bits) : Prop :=
  ∃ (low : BitVec w.bits) (f : Flags) (after : RegisterFile),
    (Rule.product true a b).Governs m.registers.rflags (low, f) ∧
    m.registers.write? r (low.setWidth 64) = some after ∧
    m.CompletesWith i { after with rflags := f }

/-- A division completes just if the divisor is not zero and the quotient is a number of the operand
width. -/
theorem completesWith_divided {d : BitVec w.bits} (hmnemonic : i.mnemonic = .divide signed)
    (h : i.Takes m d) (hd : d ≠ 0)
    (hquotient : IsNumber signed w.bits (m.registers.quotient signed d)) :
    m.CompletesWith i (m.registers.divided signed d) := by
  obtain ⟨effect, heffect, hexec⟩ := exec_divide hmnemonic h
  rw [if_neg hd, if_neg (not_not.mpr hquotient)] at hexec
  exact completesWith_of_exec h.unlocked heffect hexec

theorem divides {d : BitVec w.bits} (hmnemonic : i.mnemonic = .divide signed) (h : i.Takes m d) :
    m.Divides i signed d := by
  have hbits : 0 < w.bits := by cases w <;> decide
  obtain ⟨effect, heffect, hexec⟩ := exec_divide hmnemonic h
  by_cases hd : d = 0
  · rw [if_pos hd] at hexec
    have hstops := stopsWith_of_exec h.unlocked heffect hexec rfl
    refine ⟨iff_of_true hstops hd, iff_of_false (fun hother ↦ ?_) (fun hother ↦ hother.1 hd),
      fun hother ↦ absurd hd hother⟩
    cases hstops.eq hother
  rw [if_neg hd] at hexec
  by_cases hquotient : IsNumber signed w.bits (m.registers.quotient signed d)
  · have hcompletes := completesWith_divided hmnemonic h hd hquotient
    refine ⟨iff_of_false hcompletes.not_stopsWith hd,
      iff_of_false hcompletes.not_stopsWith (fun hother ↦ hother.2 hquotient), fun _ _ ↦ ?_⟩
    have hzero : number signed d ≠ 0 := mt number_eq_zero_iff.mp hd
    have hexact := isQuotient_tdiv (number signed (m.registers.pair w)) hzero
    have hremainder : IsNumber signed w.bits (m.registers.remainder signed d) := by
      refine isNumber_of_natAbs_lt (isNumber_number signed hbits d) hexact.remainder_lt ?_
      intro hfalse
      subst hfalse
      exact Int.tmod_nonneg _ (number_nonneg _)
    refine ⟨_, _, _, ?_, RegisterFile.writePair?_eq .., hcompletes⟩
    rw [number_ofInt hbits hquotient, number_ofInt hbits hremainder]
    exact hexact
  · rw [if_pos hquotient] at hexec
    have hstops := stopsWith_of_exec h.unlocked heffect hexec rfl
    refine ⟨iff_of_false (fun hother ↦ ?_) hd, iff_of_true hstops ⟨hd, hquotient⟩,
      fun _ hother ↦ absurd hother hquotient⟩
    cases hstops.eq hother

theorem multiplies {b : BitVec w.bits} (hmnemonic : i.mnemonic = .multiply signed)
    (h : i.Takes m b) : m.Multiplies i signed b where
  product := by
    have hbits : 0 < w.bits := by cases w <;> decide
    obtain ⟨effect, heffect, hexec⟩ := exec_multiply hmnemonic h
    have hexact : number signed (highHalf (m.registers.product signed b) ++
        lowHalf (m.registers.product signed b)) =
        number signed ((m.registers.get Register.rax).setWidth w.bits) * number signed b := by
      rw [highHalf_append_lowHalf]
      exact number_product signed hbits _ b
    exact ⟨_, _, _, _, hexact, governs_productFlags signed hbits _ _ b,
      RegisterFile.writePair?_eq .., completesWith_of_exec h.unlocked heffect hexec⟩
  undone := by
    intro done m' j hdone hregisters hdivide htakes hb
    have hbits : 0 < w.bits := by cases w <;> decide
    obtain ⟨effect, heffect, hexec⟩ := exec_multiply hmnemonic h
    rw [completesWith_of_exec h.unlocked heffect hexec] at hdone
    cases hdone
    have hpair : m'.registers.pair w = m.registers.product signed b := by
      rw [hregisters, ← highHalf_append_lowHalf (m.registers.product signed b)]
      exact RegisterFile.pair_setPair m.registers w _ _
    obtain ⟨hquotient, hremainder⟩ := RegisterFile.quotient_of_pair_eq hbits hpair hb
    have hfit := isNumber_number signed hbits ((m.registers.get Register.rax).setWidth w.bits)
    have hcompletes := completesWith_divided hdivide htakes hb (hquotient ▸ hfit)
    have hzero : BitVec.ofInt w.bits 0 = 0 := rfl
    rw [RegisterFile.divided, hquotient, hremainder, ofInt_number, hzero] at hcompletes
    exact ⟨_, RegisterFile.writePair?_eq .., hcompletes⟩

theorem multipliesInto {r : Register} {a b : BitVec w.bits} (hmnemonic : i.mnemonic = .imul)
    (h : i.TakesTwo m r a b) : m.MultipliesInto i r a b := by
  have hbits : 0 < w.bits := by cases w <;> decide
  obtain ⟨after, hafter, hexec⟩ := exec_imulLow h
  have heffect : i.mnemonic.straight? i = some (imul i) := by
    rw [hmnemonic]
    rfl
  exact ⟨_, _, after, governs_productFlags true hbits _ a b, hafter,
    completesWith_of_exec h.unlocked heffect hexec⟩

/-- Division stops at a zero divisor and at a quotient that is no number of the operand width, and
otherwise leaves quotient and remainder. Multiplication leaves the exact product or its lower half,
with carry and overflow to tell whether the lower half stands for it; and division by the same
factor takes it back. -/
theorem execute_multiply_divide :
    (∀ {signed : Bool} {m : Machine} {i : Instruction} {w : Width} {d : BitVec w.bits},
      i.mnemonic = .divide signed → i.Takes m d → m.Divides i signed d) ∧
    (∀ {signed : Bool} {m : Machine} {i : Instruction} {w : Width} {b : BitVec w.bits},
      i.mnemonic = .multiply signed → i.Takes m b → m.Multiplies i signed b) ∧
    ∀ {m : Machine} {i : Instruction} {r : Register} {w : Width} {a b : BitVec w.bits},
      i.mnemonic = .imul → i.TakesTwo m r a b → m.MultipliesInto i r a b :=
  ⟨divides, multiplies, multipliesInto⟩

/-- An instruction on registers. -/
def onRegisters (mnemonic : Mnemonic) (registers : List (Fin 16)) : Instruction where
  mnemonic := mnemonic
  operands := registers.map fun index ↦ .register (.general .qword index)
  prefixes := {}
  address := 0x400000
  length := 3
  flow := .next
  stackIncrement := 0
  elementSize := 8
  narrowAddress := false

/-- A machine that is to multiply the lowest number of 64 bits by minus one. -/
def multiplying : Machine where
  registers := ((RegisterFile.start 0x400000 0).set Register.rax 0x8000000000000000).set
    Register.rcx (-1)
  memory := {}
  retired := 0

/-- The lowest number times minus one overflows, and is the lowest number again once it is divided
by minus one. No quotient can be that product. -/
theorem execute_multiply_divide_lowest :
    (∃ done, (multiplying.execute (onRegisters .imul [Register.rcx])).1 = .ok done ∧
      done.registers.rflags.get .overflow ∧
      ∀ m' : Machine, m'.registers = done.registers →
        ∃ after, m'.registers.writePair? .qword 0x8000000000000000 0 = some after ∧
          m'.CompletesWith (onRegisters .idiv [Register.rcx])
            { after with rflags := m'.registers.rflags.clear Flag.status }) ∧
    { multiplying with registers := multiplying.registers.set Register.rdx (-1) }.StopsWith
      (onRegisters .idiv [Register.rcx]) .quotientOverflow ∧
    multiplying.MultipliesInto (onRegisters .imul [Register.rax, Register.rcx])
      (.general .qword Register.rax) (0x8000000000000000 : BitVec Width.qword.bits) (-1) := by
  have htakes (m : Machine) (mnemonic : Mnemonic) (h : m.registers.get Register.rcx = -1) :
      (onRegisters mnemonic [Register.rcx]).Takes m (-1 : BitVec Width.qword.bits) :=
    ⟨rfl, _, rfl, rfl, h ▸ ends_readOperand_general .qword m Register.rcx⟩
  refine ⟨?_, ?_, ?_⟩
  · have hmultiplies : multiplying.Multiplies (onRegisters .imul [Register.rcx]) true
        (-1 : BitVec Width.qword.bits) :=
      execute_multiply_divide.2.1 rfl (htakes _ _ rfl)
    have hdone : ∃ done, (multiplying.execute (onRegisters .imul [Register.rcx])).1 = .ok done ∧
        done.registers.rflags.get .overflow ∧ done.registers.get Register.rcx = -1 :=
      ⟨_, rfl, rfl, rfl⟩
    obtain ⟨done, hdone, hoverflow, hrcx⟩ := hdone
    refine ⟨done, hdone, hoverflow, fun m' hregisters ↦ ?_⟩
    exact hmultiplies.undone hdone hregisters rfl (htakes m' _ (hregisters ▸ hrcx)) (by decide)
  · have hdivides : { multiplying with
        registers := multiplying.registers.set Register.rdx (-1) }.Divides
        (onRegisters .idiv [Register.rcx]) true (-1 : BitVec Width.qword.bits) :=
      execute_multiply_divide.1 rfl (htakes _ _ rfl)
    exact hdivides.overflow.mpr ⟨by decide, by decide⟩
  · exact execute_multiply_divide.2.2 rfl ⟨rfl, rfl, rfl, _, _, .inl ⟨rfl, rfl⟩,
      ends_readOperand_general .qword multiplying Register.rax,
      ends_readOperand_general .qword multiplying Register.rcx⟩

end Machine

end LongMode
