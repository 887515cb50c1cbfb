import Mathlib.Tactic.LinearCombination
import Mathlib.Tactic.Ring
import LongMode.Proofs.Machine.Arithmetic

/-!
Sums and differences of numbers that are longer than any operand.

A chain adds the lowest limbs of two numbers and then, with the carry that the flag word hands on,
each pair of limbs after them; or it takes differences in the same way, with the borrow. One more
and one less of other operands may run in between. `joined` is the word that limbs make up, and the
chain has to give the limbs, the carry and the overflow of the sum of two such words.

A sum and a difference are treated as one, with a sign (`Rule.Totals`): `Carries` says that the
exact result is the word together with the carry that leaves it.

* `Carries.append`: words that carry, one behind the other, carry as one word;
* `carries_chain`: chains carry as one word, by induction on the limbs above the lowest one;
* `Width.yields_chain`: chains of sums and of differences at every operand width.
-/

set_option autoImplicit false
set_option relaxedAutoImplicit false

namespace LongMode

variable {m n : Nat}

/-! ### Limbs -/

/-- One more or one less of an operand of any width. -/
structure Count where
  {w : Width}
  down : Bool
  operand : BitVec w.bits

/-- The flags that a count leaves. -/
def Count.flags (count : Count) (f : Flags) : Flags :=
  ((if count.down then UnaryOp.dec else .inc).apply f count.operand).2

/-- A limb of either operand, and the counts that run before they are combined. -/
structure Limb (n : Nat) where
  counts : List Count
  left : BitVec n
  right : BitVec n

/-- The flags on which the two limbs are combined. -/
def Limb.before (limb : Limb n) (f : Flags) : Flags :=
  limb.counts.foldl (fun f count ↦ count.flags f) f

/-- The results of a chain of operations from the lowest limbs on, and the flags after it: the first
operation is applied to the lowest limbs, and another to all limbs after them. -/
def AluOp.chain (first next : AluOp) (f : Flags) : List (Limb n) → List (BitVec n) × Flags
  | [] => ([], f)
  | limb :: rest =>
    let (r, f) := first.apply (limb.before f) limb.left limb.right
    let (rs, f) := next.chain next f rest
    (r :: rs, f)

/-- The word that limbs make up, the lowest one first. -/
def joined {α : Type} (limb : α → BitVec n) : (l : List α) → BitVec (n * l.length)
  | [] => 0
  | a :: rest => joined limb rest ++ limb a

/-- A number and a flag word that agree with a rule on words of `n` bits, as far as the result,
carry and overflow go. -/
structure Rule.Yields (rule : Rule) (n result : Nat) (after : Flags) : Prop where
  result : (result : Int) = rule.result % 2 ^ n
  carry : after.get .carry ↔ rule.carry
  overflow : after.get .overflow ↔ rule.overflow

theorem Rule.Governs.yields {rule : Rule} {before : Flags} {outcome : BitVec n × Flags}
    (h : rule.Governs before outcome) : rule.Yields n outcome.1.toNat outcome.2 :=
  ⟨h.result, h.carry, h.overflow⟩

/-- Sums, with sign `1`, and differences, with sign `-1`: the exact result is the word together with
the carry that leaves it. -/
structure Carries (sign : Int) (a b : BitVec n) (carry : Bool) (result : Nat) (after : Flags) :
    Prop where
  result_lt : result < 2 ^ n
  exact : a.toNat + sign * (b.toNat + carry.toNat) =
    result + sign * (2 ^ n * (after.get .carry).toNat)
  overflow : after.get .overflow ↔ ¬IsSigned n (a.toInt + sign * (b.toInt + carry.toNat))

section Words

variable {a b : BitVec n} {c : Bool} {r : Nat} {f : Flags}

theorem Rule.Yields.result_lt {rule : Rule} (h : rule.Yields n r f) : r < 2 ^ n := by
  have hlt := Int.emod_lt_of_pos rule.result (Int.pow_pos (show (0 : Int) < 2 by decide) (m := n))
  rw [← h.result] at hlt
  exact_mod_cast hlt

/-- A rule about two words and a carry, of which the second word and the carry count with a sign.
Its carry tells that the exact result is no word. -/
structure Rule.Totals (rule : Rule) (sign : Int) (a b : BitVec n) (c : Bool) : Prop where
  sign_eq : sign = 1 ∨ sign = -1
  result : rule.result = a.toNat + sign * (b.toNat + c.toNat)
  carry : rule.carry ↔ ¬(0 ≤ rule.result ∧ rule.result < 2 ^ n)
  overflow : rule.overflow ↔ ¬IsSigned n (a.toInt + sign * (b.toInt + c.toNat))

theorem natCast_two_pow (n : Nat) : ((2 ^ n : Nat) : Int) = 2 ^ n :=
  Int.natCast_pow 2 n

theorem Rule.totals_sum : (Rule.sum a b c).Totals 1 a b c where
  sign_eq := .inl rfl
  result := by
    simp only [Rule.sum]
    ring
  carry := by
    have hfull := natCast_two_pow n
    simp only [Rule.sum]
    omega
  overflow := by
    rw [one_mul, ← add_assoc]
    rfl

theorem Rule.totals_difference : (Rule.difference a b c).Totals (-1) a b c where
  sign_eq := .inr rfl
  result := by
    simp only [Rule.difference]
    ring
  carry := by
    have hfull := natCast_two_pow n
    have ha := a.isLt
    simp only [Rule.difference]
    omega
  overflow := by
    rw [neg_one_mul, ← sub_eq_add_neg, ← sub_sub]
    rfl

section Totals

variable {rule : Rule} {sign : Int} (h : rule.Totals sign a b c)

include h

/-- An exact result that is no word is off by `2 ^ n`. -/
theorem Rule.Totals.emod_result (hout : ¬(0 ≤ rule.result ∧ rule.result < 2 ^ n)) :
    rule.result % 2 ^ n = rule.result - sign * 2 ^ n := by
  have hresult := h.result
  have ha := a.isLt
  have hb := b.isLt
  have hc := c.toNat_le
  rw [← natCast_two_pow n] at hout ⊢
  rw [← Int.sub_mul_emod_self_left rule.result (2 ^ n : Nat) sign, mul_comm]
  rcases h.sign_eq with rfl | rfl
  · exact Int.emod_eq_of_lt (by omega) (by omega)
  · exact Int.emod_eq_of_lt (by omega) (by omega)

theorem Rule.Totals.carries (hyields : rule.Yields n r f) : Carries sign a b c r f where
  result_lt := hyields.result_lt
  exact := by
    have hset := hyields.carry.trans h.carry
    rw [← h.result, hyields.result]
    by_cases hword : 0 ≤ rule.result ∧ rule.result < 2 ^ n
    · have hclear : f.get .carry = false := Bool.eq_false_iff.mpr fun hk ↦ hset.mp hk hword
      rw [hclear, Bool.toNat_false, Int.emod_eq_of_lt hword.1 hword.2]
      simp
    · rw [hset.mpr hword, Bool.toNat_true, h.emod_result hword]
      ring
  overflow := hyields.overflow.trans h.overflow

theorem Rule.Totals.yields (hcarries : Carries sign a b c r f) : rule.Yields n r f where
  result := by
    have hlt := hcarries.result_lt
    rw [h.result, hcarries.exact, mul_left_comm, Int.add_mul_emod_self_left, ← natCast_two_pow n,
      Int.emod_eq_of_lt (by omega) (by omega)]
  carry := by
    have hlt := hcarries.result_lt
    have hexact := hcarries.exact
    rw [← h.result, ← natCast_two_pow n] at hexact
    rw [h.carry, ← natCast_two_pow n]
    cases hk : f.get .carry with
    | false =>
      rw [hk, Bool.toNat_false] at hexact
      simp only [Bool.false_eq_true, false_iff, not_not]
      constructor <;> omega
    | true =>
      rw [hk, Bool.toNat_true] at hexact
      rcases h.sign_eq with rfl | rfl
      · simp only [true_iff]
        omega
      · simp only [true_iff]
        omega
  overflow := hcarries.overflow.trans h.overflow.symm

end Totals

end Words

/-! ### One word behind another -/

theorem toNat_append (high : BitVec n) (low : BitVec m) :
    (high ++ low).toNat = high.toNat * 2 ^ m + low.toNat := by
  rw [BitVec.toNat_append, ← Nat.shiftLeft_add_eq_or_of_lt low.isLt, Nat.shiftLeft_eq]

theorem toInt_append (hn : 0 < n) (high : BitVec n) (low : BitVec m) :
    (high ++ low).toInt = 2 ^ m * high.toInt + low.toNat := by
  rw [BitVec.toInt_append, if_neg (by simpa using hn.ne')]

/-- The high part alone decides whether a number is signed. -/
theorem isSigned_append {x r : Int} (hn : 0 < n) (hr : 0 ≤ r) (hlt : r < 2 ^ m) :
    IsSigned (n + m) (2 ^ m * x + r) ↔ IsSigned n x := by
  have hpos : (0 : Int) < 2 ^ m := Int.pow_pos (by decide)
  have hhigh : (2 ^ m * x + r) / 2 ^ m = x := by
    rw [Int.add_comm, Int.add_mul_ediv_left _ _ hpos.ne', Int.ediv_eq_zero_of_lt hr hlt, zero_add]
  have hhalf : (2 : Int) ^ (n + m - 1) = 2 ^ (n - 1) * 2 ^ m := by
    rw [← pow_add, Nat.sub_add_comm hn]
  unfold IsSigned
  rw [hhalf, ← Int.neg_mul, ← Int.le_ediv_iff_mul_le hpos, ← Int.ediv_lt_iff_lt_mul hpos, hhigh]

/-- What a limb carries and what the words above it carry on that make up what all of them carry. -/
theorem Carries.append {sign : Int} {a₀ b₀ : BitVec m} {a₁ b₁ : BitVec n} {c : Bool} {r₀ r₁ : Nat}
    {f₀ f₁ : Flags} (hn : 0 < n) (low : Carries sign a₀ b₀ c r₀ f₀)
    (high : Carries sign a₁ b₁ (f₀.get .carry) r₁ f₁) :
    Carries sign (a₁ ++ a₀) (b₁ ++ b₀) c (r₁ * 2 ^ m + r₀) f₁ where
  result_lt := by
    rw [pow_add]
    calc r₁ * 2 ^ m + r₀
        < (r₁ + 1) * 2 ^ m := by have := low.result_lt; rw [add_mul]; omega
      _ ≤ 2 ^ n * 2 ^ m := Nat.mul_le_mul_right _ high.result_lt
  exact := by
    have hlow := low.exact
    have hhigh := high.exact
    rw [toNat_append, toNat_append]
    push_cast
    linear_combination hlow + 2 ^ m * hhigh
  overflow := by
    have hlow := low.exact
    have hsigned : (a₁ ++ a₀).toInt + sign * ((b₁ ++ b₀).toInt + c.toNat) =
        2 ^ m * (a₁.toInt + sign * (b₁.toInt + (f₀.get .carry).toNat)) + r₀ := by
      rw [toInt_append hn, toInt_append hn]
      linear_combination hlow
    rw [hsigned, isSigned_append hn (by omega) (mod_cast low.result_lt), high.overflow]

/-! ### Chains -/

theorem Count.get_carry_flags (count : Count) (f : Flags) :
    (count.flags f).get .carry = f.get .carry := by
  cases hdown : count.down <;>
    simp [Count.flags, hdown, UnaryOp.apply, Alu.increment, Alu.decrement, Alu.keepCarry,
      Flags.get_set]

theorem Limb.get_carry_before (limb : Limb n) (f : Flags) :
    (limb.before f).get .carry = f.get .carry :=
  List.foldlRecOn (motive := fun after ↦ after.get .carry = f.get .carry) limb.counts _ rfl
    fun f hf count _ ↦ (count.get_carry_flags f).trans hf

theorem toNat_joined_cons {α : Type} (limb : α → BitVec n) (a : α) (rest : List α) :
    (joined limb (a :: rest)).toNat = (joined limb rest).toNat * 2 ^ n + (limb a).toNat :=
  toNat_append (joined limb rest) (limb a)

theorem joined_singleton {α : Type} (limb : α → BitVec n) (a : α) :
    joined limb [a] = (limb a).cast (Nat.mul_one n).symm :=
  BitVec.eq_of_toNat_eq (by simp [joined])

theorem Carries.cast {sign : Int} {a b : BitVec n} {c : Bool} {r : Nat} {f : Flags} (hm : n = m)
    (h : Carries sign a b c r f) : Carries sign (a.cast hm) (b.cast hm) c r f := by
  subst hm
  exact h

/-- A chain gives as many limbs as it was given, and carries as one word of that many limbs does. -/
theorem carries_chain {sign : Int} (hn : 0 < n) {next : AluOp}
    (hnext : ∀ (f : Flags) (a b : BitVec n),
      Carries sign a b (f.get .carry) (next.apply f a b).1.toNat (next.apply f a b).2)
    {op : AluOp} {c : Bool} (f : Flags) (limb : Limb n) (rest : List (Limb n))
    (hop : Carries sign limb.left limb.right c
      (op.apply (limb.before f) limb.left limb.right).1.toNat
      (op.apply (limb.before f) limb.left limb.right).2) :
    let outcome := op.chain next f (limb :: rest)
    outcome.1.length = (limb :: rest).length ∧
      Carries sign (joined Limb.left (limb :: rest)) (joined Limb.right (limb :: rest)) c
        (joined id outcome.1).toNat outcome.2 := by
  intro outcome
  induction rest generalizing op c f limb with
  | nil =>
    have hr : (joined id outcome.1).toNat =
        (op.apply (limb.before f) limb.left limb.right).1.toNat := by
      simp [outcome, AluOp.chain, joined]
    rw [joined_singleton, joined_singleton, hr]
    exact ⟨rfl, hop.cast _⟩
  | cons head rest ih =>
    -- The chain above the lowest limbs starts with the carry that they leave.
    let low := op.apply (limb.before f) limb.left limb.right
    have hhead := hnext (head.before low.2) head.left head.right
    rw [head.get_carry_before] at hhead
    obtain ⟨hlength, hhigh⟩ := ih low.2 head hhead
    refine ⟨congrArg (· + 1) hlength, ?_⟩
    have hr : (joined id outcome.1).toNat = _ := toNat_joined_cons id low.1 _
    rw [hr]
    exact hop.append (Nat.mul_pos hn (Nat.succ_pos _)) hhigh

/-- Chains at every operand width, over one pair of limbs or more, on any flag word: they give as
many limbs as they were given, and these, carry and overflow are those of the sum and of the
difference of the two words that the limbs make up. -/
theorem Width.yields_chain (w : Width) (f : Flags) (limb : Limb w.bits)
    (rest : List (Limb w.bits)) :
    let limbs := limb :: rest
    let a := joined Limb.left limbs
    let b := joined Limb.right limbs
    let sum := AluOp.add.chain .adc f limbs
    let difference := AluOp.sub.chain .sbb f limbs
    (sum.1.length = limbs.length ∧
      (Rule.sum a b false).Yields (w.bits * limbs.length) (joined id sum.1).toNat sum.2) ∧
    difference.1.length = limbs.length ∧
      (Rule.difference a b false).Yields (w.bits * limbs.length) (joined id difference.1).toNat
        difference.2 := by
  have hn : 4 < w.bits := by cases w <;> decide
  have hpos := Nat.zero_lt_of_lt hn
  intro limbs a b sum difference
  have hadd := AluOp.add.governs_apply (limb.before f) limb.left limb.right hn
  have hsub := AluOp.sub.governs_apply (limb.before f) limb.left limb.right hn
  have ⟨hlengthS, hsum⟩ := carries_chain hpos
    (fun f a b ↦ Rule.totals_sum.carries (AluOp.adc.governs_apply f a b hn).yields)
    f limb rest (Rule.totals_sum.carries hadd.yields)
  have ⟨hlengthD, hdifference⟩ := carries_chain hpos
    (fun f a b ↦ Rule.totals_difference.carries (AluOp.sbb.governs_apply f a b hn).yields)
    f limb rest (Rule.totals_difference.carries hsub.yields)
  refine ⟨⟨hlengthS, ?_⟩, hlengthD, ?_⟩
  · exact Rule.totals_sum.yields hsum
  · exact Rule.totals_difference.yields hdifference

end LongMode
