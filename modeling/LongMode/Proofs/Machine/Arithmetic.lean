import Mathlib.Algebra.Group.Nat.Even
import Mathlib.Data.Int.ModEq
import LongMode.Machine.Alu
import LongMode.Proofs.Register.Flags

/-!
Integer arithmetic against the numbers that words stand for.

A `Rule` tells what an operation means: its exact result, and when there is a carry, an overflow and
an adjustment. A sum carries when the exact unsigned sum needs more than `n` bits, overflows when
the exact signed sum is no `n`-bit signed number, and adjusts when the sum of the low four bits
needs more than four. `Rule.Governs` says that an outcome is the exact result modulo `2 ^ n`, that
the six status flags are as told, and that no other bit of the flag word changed.

* `Alu.governs_add` and `Alu.governs_sub`: sums with a carry and differences with a borrow;
* `AluOp.governs_apply`: every two-operand operation, on words of more than four bits;
* `Width.governs_arithmetic`: these, one more, one less and the difference from zero, at every
  operand width.
-/

set_option autoImplicit false
set_option relaxedAutoImplicit false

namespace LongMode

variable {n : Nat}

/-! ### What operations mean -/

/-- Whether a number is the signed value of a word of `n` bits. -/
def IsSigned (n : Nat) (value : Int) : Prop :=
  -2 ^ (n - 1) ≤ value ∧ value < 2 ^ (n - 1)

/-- The exact result of an operation, and when it carries, overflows and adjusts. -/
structure Rule where
  result : Int
  carry : Prop
  overflow : Prop
  adjust : Prop

namespace Rule

/-- The sum of two words and a carry. -/
def sum (a b : BitVec n) (carry : Bool) : Rule where
  result := a.toNat + b.toNat + carry.toNat
  carry := 2 ^ n ≤ a.toNat + b.toNat + carry.toNat
  overflow := ¬IsSigned n (a.toInt + b.toInt + carry.toNat)
  adjust := 2 ^ 4 ≤ a.toNat % 2 ^ 4 + b.toNat % 2 ^ 4 + carry.toNat

/-- The difference of two words less a borrow. -/
def difference (a b : BitVec n) (borrow : Bool) : Rule where
  result := a.toNat - b.toNat - borrow.toNat
  carry := a.toNat < b.toNat + borrow.toNat
  overflow := ¬IsSigned n (a.toInt - b.toInt - borrow.toNat)
  adjust := a.toNat % 2 ^ 4 < b.toNat % 2 ^ 4 + borrow.toNat

/-- A result that is computed bit by bit. -/
def bitwise (result : Nat) : Rule where
  result := result
  carry := False
  overflow := False
  adjust := False

/-- An outcome that a rule allows: the word and the flag word that follow on a flag word. -/
structure Governs (rule : Rule) (before : Flags) (outcome : BitVec n × Flags) : Prop where
  result : (outcome.1.toNat : Int) = rule.result % 2 ^ n
  carry : outcome.2.get .carry ↔ rule.carry
  overflow : outcome.2.get .overflow ↔ rule.overflow
  adjust : outcome.2.get .adjust ↔ rule.adjust
  zero : outcome.2.get .zero ↔ outcome.1.toNat = 0
  sign : outcome.2.get .sign ↔ outcome.1.toInt < 0
  parity : outcome.2.get .parity ↔ Even ((List.range 8).countP outcome.1.getLsbD)
  others : before.Agree (Flag.status.map Flag.position) outcome.2

end Rule

/-! ### The flags of a result -/

namespace Alu

theorem foldl_xor_eq (p : Nat → Bool) (l : List Nat) (start : Bool) :
    l.foldl (fun even i ↦ even ^^ p i) start = (start ^^ decide (l.countP p % 2 = 1)) := by
  induction l generalizing start with
  | nil => simp
  | cons i rest ih =>
    have hodd (k : Nat) : decide ((k + 1) % 2 = 1) = !decide (k % 2 = 1) := by
      by_cases h : k % 2 = 1 <;> simp [h] <;> omega
    rw [List.foldl_cons, ih, List.countP_cons]
    cases hp : p i <;> simp [hodd]

theorem evenParity_eq_true_iff (r : BitVec n) :
    evenParity r = true ↔ Even ((List.range 8).countP r.getLsbD) := by
  rw [evenParity, foldl_xor_eq, Nat.even_iff]
  simp

theorem get_setResult (f : Flags) (r : BitVec n) (flag : Flag) :
    (setResult f r).get flag =
      match flag with
      | .zero => r == 0
      | .sign => r.msb
      | .parity => evenParity r
      | flag => f.get flag := by
  cases flag <;> simp [setResult, Flags.get_set]

end Alu

/-- The zero, sign and parity flags are as they should be once they are set from the result. -/
theorem Rule.governs_setResult {rule : Rule} {before f : Flags} {r : BitVec n}
    (hresult : (r.toNat : Int) = rule.result % 2 ^ n) (hcarry : f.get .carry ↔ rule.carry)
    (hoverflow : f.get .overflow ↔ rule.overflow) (hadjust : f.get .adjust ↔ rule.adjust)
    (hothers : before.Agree (Flag.status.map Flag.position) f) :
    rule.Governs before (r, Alu.setResult f r) where
  result := hresult
  carry := by rw [Alu.get_setResult]; exact hcarry
  overflow := by rw [Alu.get_setResult]; exact hoverflow
  adjust := by rw [Alu.get_setResult]; exact hadjust
  zero := by simp [Alu.get_setResult, ← BitVec.toNat_inj]
  sign := by simp [Alu.get_setResult, BitVec.msb_eq_toInt]
  parity := by rw [Alu.get_setResult]; exact Alu.evenParity_eq_true_iff r
  others := ((hothers.set (by decide) _).set (by decide) _).set (by decide) _

/-! ### Carries and signs -/

namespace Alu

variable (a b : BitVec n) (c : Bool)

theorem toNat_carry (hn : 0 < n) : ((BitVec.ofBool c).setWidth n).toNat = c.toNat := by
  simpa using Nat.mod_eq_of_lt (c.toNat_lt.trans_le (Nat.pow_le_pow_right Nat.two_pos hn))

theorem toNat_sum : ((a + b + (BitVec.ofBool c).setWidth n).toNat : Int) =
    (Rule.sum a b c).result % 2 ^ n := by
  cases c <;> simp [Rule.sum]

theorem toNat_difference (hn : 0 < n) : ((a - b - (BitVec.ofBool c).setWidth n).toNat : Int) =
    (Rule.difference a b c).result % 2 ^ n := by
  have hc : c.toNat ≤ 2 ^ n := c.toNat_le.trans Nat.one_le_two_pow
  rw [BitVec.toNat_sub, BitVec.toNat_sub, Nat.add_mod_mod, toNat_carry c hn]
  push_cast [b.isLt.le, hc]
  refine Int.modEq_iff_dvd.mpr ⟨-2, ?_⟩
  simp only [Rule.difference]
  omega

/-! ### Overflow -/

theorem toInt_carry (hn : 1 < n) : ((BitVec.ofBool c).setWidth n).toInt = c.toNat := by
  have htwo : 2 ^ 2 ≤ 2 ^ n := Nat.pow_le_pow_right Nat.two_pos hn
  have hc := toNat_carry c (Nat.zero_lt_of_lt hn)
  have hle := c.toNat_le
  rw [BitVec.toInt_eq_toNat_of_lt (by omega), hc]

theorem two_mul_half (hn : 0 < n) : (2 * 2 ^ (n - 1) : Int) = 2 ^ n := by
  rw [← Int.pow_succ', Nat.sub_add_cancel hn]

theorem isSigned_toInt (hn : 0 < n) (x : BitVec n) : IsSigned n x.toInt := by
  have hfull := two_mul_half hn
  have hlow := x.le_two_mul_toInt
  have hhigh := x.two_mul_toInt_lt
  constructor <;> omega

/-- A word that is an exact signed result modulo `2 ^ n` is that result, or it is off by `2 ^ n` and
the result is no signed number. -/
theorem toInt_of_near (hn : 0 < n) {r : BitVec n} {exact : Int}
    (hr : r.toInt = exact.bmod (2 ^ n)) (hlow : -2 ^ n ≤ exact) (hhigh : exact < 2 ^ n) :
    (r.toInt = exact ∧ IsSigned n exact) ∨ (r.toInt = exact + 2 ^ n ∧ exact < -2 ^ (n - 1)) ∨
      (r.toInt = exact - 2 ^ n ∧ 2 ^ (n - 1) ≤ exact) := by
  have hfull := two_mul_half hn
  have ⟨hlowR, hhighR⟩ := isSigned_toInt hn r
  have hmod : exact % 2 ^ n = exact ∨ exact % 2 ^ n = exact + 2 ^ n := by
    by_cases hneg : exact < 0
    · right
      rw [← Int.add_emod_right, Int.emod_eq_of_lt] <;> omega
    · exact .inl (Int.emod_eq_of_lt (by omega) hhigh)
  rw [Int.bmod_eq_emod] at hr
  push_cast at hr
  unfold IsSigned
  split at hr <;> omega

theorem overflow_sum (hn : 1 < n) :
    let r := a + b + (BitVec.ofBool c).setWidth n
    ((a ^^^ r) &&& (b ^^^ r)).msb ↔ (Rule.sum a b c).overflow := by
  intro r
  have hpos := Nat.zero_lt_of_lt hn
  have hr : r.toInt = (a.toInt + b.toInt + c.toNat).bmod (2 ^ n) := by
    rw [BitVec.toInt_add, BitVec.toInt_add, toInt_carry c hn, Int.bmod_add_bmod]
  have hfull := two_mul_half hpos
  have hc := c.toNat_le
  have ⟨hlowA, hhighA⟩ := isSigned_toInt hpos a
  have ⟨hlowB, hhighB⟩ := isSigned_toInt hpos b
  have ⟨hlowR, hhighR⟩ := isSigned_toInt hpos r
  have hnear := toInt_of_near hpos hr (by omega) (by omega)
  rw [BitVec.msb_and, BitVec.msb_xor, BitVec.msb_xor, a.msb_eq_toInt, b.msb_eq_toInt,
    r.msb_eq_toInt]
  simp only [Rule.sum, IsSigned] at hnear ⊢
  simp
  omega

theorem overflow_difference (hn : 1 < n) :
    let r := a - b - (BitVec.ofBool c).setWidth n
    ((a ^^^ b) &&& (a ^^^ r)).msb ↔ (Rule.difference a b c).overflow := by
  intro r
  have hpos := Nat.zero_lt_of_lt hn
  have hr : r.toInt = (a.toInt - b.toInt - c.toNat).bmod (2 ^ n) := by
    rw [BitVec.toInt_sub, BitVec.toInt_sub, toInt_carry c hn, Int.bmod_sub_bmod]
  have hfull := two_mul_half hpos
  have hc := c.toNat_le
  have ⟨hlowA, hhighA⟩ := isSigned_toInt hpos a
  have ⟨hlowB, hhighB⟩ := isSigned_toInt hpos b
  have ⟨hlowR, hhighR⟩ := isSigned_toInt hpos r
  have hnear := toInt_of_near hpos hr (by omega) (by omega)
  rw [BitVec.msb_and, BitVec.msb_xor, BitVec.msb_xor, a.msb_eq_toInt, b.msb_eq_toInt,
    r.msb_eq_toInt]
  simp only [Rule.difference, IsSigned] at hnear ⊢
  simp
  omega

/-! ### Carries out of the low four bits -/

theorem adjust_sum (hn : 4 < n) :
    let r := a + b + (BitVec.ofBool c).setWidth n
    (a ^^^ b ^^^ r).getLsbD 4 ↔ (Rule.sum a b c).adjust := by
  intro r
  have hr : r.getLsbD 4 = (a.getLsbD 4 ^^ (b.getLsbD 4 ^^ BitVec.carry 4 a b c)) :=
    BitVec.getLsbD_add_add_bool hn a b c
  rw [BitVec.getLsbD_xor, BitVec.getLsbD_xor, hr]
  cases a.getLsbD 4 <;> cases b.getLsbD 4 <;> simp [BitVec.carry, Rule.sum]

/-- A difference is the sum with the complement and the opposite of the borrow. -/
theorem difference_eq_sum : a - b - (BitVec.ofBool c).setWidth n =
    a + ~~~b + (BitVec.ofBool !c).setWidth n := by
  have hfull : a - b = a + ~~~b + 1#n := by
    rw [BitVec.sub_eq_add_neg, BitVec.neg_eq_not_add, BitVec.add_assoc]
  have hone : (1#1).setWidth n = 1#n := BitVec.eq_of_toNat_eq (by simp)
  have hzero : (0#1).setWidth n = 0#n := BitVec.eq_of_toNat_eq (by simp)
  rw [hfull]
  cases c with
  | false =>
    change a + ~~~b + 1#n - (0#1).setWidth n = a + ~~~b + (1#1).setWidth n
    rw [hzero, hone, BitVec.sub_zero]
  | true =>
    change a + ~~~b + 1#n - (1#1).setWidth n = a + ~~~b + (0#1).setWidth n
    rw [hzero, hone, BitVec.add_sub_cancel, BitVec.add_zero]

theorem adjust_difference (hn : 4 < n) :
    let r := a - b - (BitVec.ofBool c).setWidth n
    (a ^^^ b ^^^ r).getLsbD 4 ↔ (Rule.difference a b c).adjust := by
  intro r
  have hr : r.getLsbD 4 = (a.getLsbD 4 ^^ (!b.getLsbD 4 ^^ BitVec.carry 4 a (~~~b) !c)) := by
    rw [show r = _ from difference_eq_sum a b c, BitVec.getLsbD_add_add_bool hn]
    simp [hn]
  have hnibble : 2 ^ n = 16 * 2 ^ (n - 4) := by
    rw [← Nat.pow_add 2 4, Nat.add_sub_cancel' (Nat.le_of_lt hn)]
  have hb := b.isLt
  have hnot : (2 ^ n - 1 - b.toNat) % 16 = 15 - b.toNat % 16 := by omega
  have hiff : BitVec.carry 4 a (~~~b) (!c) = false ↔ (Rule.difference a b c).adjust := by
    cases c <;> simp [BitVec.carry, Rule.difference, hnot] <;> omega
  rw [BitVec.getLsbD_xor, BitVec.getLsbD_xor, hr, ← hiff]
  cases a.getLsbD 4 <;> cases b.getLsbD 4 <;> simp

/-! ### Operations follow their rules -/

variable (f : Flags)

theorem governs_add (hn : 4 < n) : (Rule.sum a b c).Governs f (add f a b c) := by
  refine Rule.governs_setResult (toNat_sum a b c) ?_ ?_ ?_
    ((((Flags.Agree.refl _ f).set (by decide) _).set (by decide) _).set (by decide) _)
  · simp [Flags.get_set, Rule.sum, Nat.shiftLeft_eq]
  · simpa [Flags.get_set] using overflow_sum a b c (by omega)
  · simpa [Flags.get_set] using adjust_sum a b c hn

theorem governs_sub (hn : 4 < n) : (Rule.difference a b c).Governs f (sub f a b c) := by
  refine Rule.governs_setResult (toNat_difference a b c (by omega)) ?_ ?_ ?_
    ((((Flags.Agree.refl _ f).set (by decide) _).set (by decide) _).set (by decide) _)
  · simp [Flags.get_set, Rule.difference]
  · simpa [Flags.get_set] using overflow_difference a b c (by omega)
  · simpa [Flags.get_set] using adjust_difference a b c hn

theorem governs_logic {r : BitVec n} {result : Nat} (hr : r.toNat = result) :
    (Rule.bitwise result).Governs f (logic f r) := by
  refine Rule.governs_setResult ?_ ?_ ?_ ?_ ((Flags.Agree.refl _ f).clear (by decide))
  · rw [hr]
    exact (Int.emod_eq_of_lt (Int.natCast_nonneg _) (mod_cast hr ▸ r.isLt)).symm
  all_goals simp [Flags.get_clear, Rule.bitwise]

end Alu

/-- A rule is still followed when carry is put to another value and means that. -/
theorem Rule.Governs.set_carry {rule : Rule} {before : Flags} {outcome : BitVec n × Flags}
    {value : Bool} {carry : Prop} (h : rule.Governs before outcome) (hcarry : value ↔ carry) :
    { rule with carry := carry }.Governs before (outcome.1, outcome.2.set .carry value) where
  result := h.result
  carry := by simpa [Flags.get_set] using hcarry
  overflow := by simpa [Flags.get_set] using h.overflow
  adjust := by simpa [Flags.get_set] using h.adjust
  zero := by simpa [Flags.get_set] using h.zero
  sign := by simpa [Flags.get_set] using h.sign
  parity := by simpa [Flags.get_set] using h.parity
  others := h.others.set (by decide) value

/-- What a two-operand operation means on a flag word. -/
def AluOp.rule (op : AluOp) (f : Flags) (a b : BitVec n) : Rule :=
  match op with
  | .add => .sum a b false
  | .adc => .sum a b (f.get .carry)
  | .sub => .difference a b false
  | .sbb => .difference a b (f.get .carry)
  | .and => .bitwise (a.toNat &&& b.toNat)
  | .or => .bitwise (a.toNat ||| b.toNat)
  | .xor => .bitwise (a.toNat ^^^ b.toNat)

theorem AluOp.governs_apply (op : AluOp) (f : Flags) (a b : BitVec n) (hn : 4 < n) :
    (op.rule f a b).Governs f (op.apply f a b) := by
  cases op with
  | add => exact Alu.governs_add a b false f hn
  | adc => exact Alu.governs_add a b (f.get .carry) f hn
  | sub => exact Alu.governs_sub a b false f hn
  | sbb => exact Alu.governs_sub a b (f.get .carry) f hn
  | and => exact Alu.governs_logic f (BitVec.toNat_and a b)
  | or => exact Alu.governs_logic f (BitVec.toNat_or a b)
  | xor => exact Alu.governs_logic f (BitVec.toNat_xor a b)

/-- Arithmetic at every operand width, on the low parts of 64-bit operands and any flag word: each
two-operand operation follows its rule; one more and one less are a sum and a difference that leave
carry as it is; and the difference from zero carries unless the operand is zero. -/
theorem Width.governs_arithmetic (w : Width) (f : Flags) (dest src : BitVec 64) :
    let a := dest.setWidth w.bits
    let b := src.setWidth w.bits
    (∀ op : AluOp, (op.rule f a b).Governs f (op.apply f a b)) ∧
      { Rule.sum a 1 false with carry := f.get .carry }.Governs f (UnaryOp.inc.apply f a) ∧
      { Rule.difference a 1 false with carry := f.get .carry }.Governs f
        (UnaryOp.dec.apply f a) ∧
      { Rule.difference 0 a false with carry := a.toNat ≠ 0 }.Governs f
        (UnaryOp.neg.apply f a) := by
  intro a b
  have hn : 4 < w.bits := by cases w <;> decide
  refine ⟨fun op ↦ op.governs_apply f a b hn, ?_, ?_, ?_⟩
  · exact (Alu.governs_add a 1 false f hn).set_carry Iff.rfl
  · exact (Alu.governs_sub a 1 false f hn).set_carry Iff.rfl
  · refine (Alu.governs_sub 0 a false f hn).set_carry ?_
    simp [← BitVec.toNat_inj]

end LongMode
