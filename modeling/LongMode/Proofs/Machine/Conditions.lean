import LongMode.Proofs.Machine.Arithmetic

/-!
Conditions after a comparison. A comparison sets the flags of a difference and keeps nothing else of
it, and `Condition.Relates` says what each of the sixteen conditions then has to tell of the words
that were compared: whether they are equal, their unsigned and their signed order, and the sign, the
parity and the overflow of their difference.

* `Alu.sign_iff_isSigned`: the signed order, decoded from sign and overflow;
* `Alu.tells_sub`: all sixteen conditions, on words of more than four bits.
-/

set_option autoImplicit false
set_option relaxedAutoImplicit false

namespace LongMode

variable {n : Nat}

/-! ### What conditions tell -/

/-- What a condition says of two words that were compared. -/
def Condition.Relates (c : Condition) (a b : BitVec n) : Prop :=
  match c with
  | overflow => ¬IsSigned n (a.toInt - b.toInt)
  | noOverflow => IsSigned n (a.toInt - b.toInt)
  | below => a.toNat < b.toNat
  | aboveOrEqual => b.toNat ≤ a.toNat
  | equal => a = b
  | notEqual => a ≠ b
  | belowOrEqual => a.toNat ≤ b.toNat
  | above => b.toNat < a.toNat
  | sign => (a - b).toInt < 0
  | noSign => 0 ≤ (a - b).toInt
  | parity => Even ((List.range 8).countP (a - b).getLsbD)
  | noParity => ¬Even ((List.range 8).countP (a - b).getLsbD)
  | less => a.toInt < b.toInt
  | greaterOrEqual => b.toInt ≤ a.toInt
  | lessOrEqual => a.toInt ≤ b.toInt
  | greater => b.toInt < a.toInt

instance (value : Int) : Decidable (IsSigned n value) :=
  inferInstanceAs (Decidable (_ ∧ _))

instance (c : Condition) (a b : BitVec n) : Decidable (c.Relates a b) :=
  match c with
  | .overflow => inferInstanceAs (Decidable (¬IsSigned n _))
  | .noOverflow => inferInstanceAs (Decidable (IsSigned n _))
  | .below | .above => inferInstanceAs (Decidable (_ < _))
  | .aboveOrEqual | .belowOrEqual => inferInstanceAs (Decidable (_ ≤ _))
  | .equal => inferInstanceAs (Decidable (a = b))
  | .notEqual => inferInstanceAs (Decidable (a ≠ b))
  | .sign | .less | .greater => inferInstanceAs (Decidable (_ < _))
  | .noSign | .greaterOrEqual | .lessOrEqual => inferInstanceAs (Decidable (_ ≤ _))
  | .parity => inferInstanceAs (Decidable (Even _))
  | .noParity => inferInstanceAs (Decidable (¬Even _))

/-- A flag word on which every condition tells how two words compare. -/
def Flags.Tells (f : Flags) (a b : BitVec n) : Prop :=
  ∀ c : Condition, c.holds f ↔ c.Relates a b

/-! ### The flags of a difference -/

namespace Alu

variable (f : Flags) (a b : BitVec n)

/-- The signed order is decoded from the sign of the difference and overflow: the difference is off
by `2 ^ n`, and has the wrong sign, just if it overflows. -/
theorem sign_iff_isSigned (hn : 0 < n) :
    ((a - b).toInt < 0 ↔ IsSigned n (a.toInt - b.toInt)) ↔ a.toInt < b.toInt := by
  have hfull := two_mul_half hn
  obtain ⟨hlowA, hhighA⟩ := isSigned_toInt hn a
  obtain ⟨hlowB, hhighB⟩ := isSigned_toInt hn b
  obtain ⟨hlowR, hhighR⟩ := isSigned_toInt hn (a - b)
  have hr : (a - b).toInt = (a.toInt - b.toInt).bmod (2 ^ n) := BitVec.toInt_sub
  have hnear := toInt_of_near hn hr (by omega) (by omega)
  unfold IsSigned at hnear ⊢
  omega

/-- After a comparison every condition tells how the two words compare. -/
theorem tells_sub (hn : 4 < n) : (sub f a b false).2.Tells a b := by
  obtain ⟨-, hcarry, hoverflow, -, hzero, hsign, hparity, -⟩ := governs_sub a b false f hn
  have hr : (sub f a b false).1 = a - b := by simp [sub]
  have hequal : (a - b).toNat = 0 ↔ a = b := by
    have hzero : (a - b).toNat = 0 ↔ a - b = 0#n := by simp [← BitVec.toNat_inj]
    rw [hzero, BitVec.sub_eq_iff_eq_add, BitVec.zero_add]
  simp only [Rule.difference, Bool.toNat_false, Nat.add_zero, Int.natCast_zero, Int.sub_zero]
    at hcarry hoverflow
  rw [hr] at hzero hsign hparity
  rw [hequal] at hzero
  generalize (sub f a b false).2 = g at *
  have hless : g.get .sign != g.get .overflow ↔ a.toInt < b.toInt := by
    rw [bne_iff_ne, Ne, Bool.eq_iff_iff, hsign, hoverflow, not_iff, not_iff_not]
    exact sign_iff_isSigned a b (Nat.zero_lt_of_lt hn)
  have hbelowOrEqual : g.get .carry || g.get .zero ↔ a.toNat ≤ b.toNat := by
    rw [Bool.or_eq_true, hcarry, hzero, ← BitVec.toNat_inj, Nat.le_iff_lt_or_eq]
  have hlessOrEqual : g.get .zero || g.get .sign != g.get .overflow ↔ a.toInt ≤ b.toInt := by
    rw [Bool.or_eq_true, hless, hzero, ← BitVec.toInt_inj, Int.le_iff_eq_or_lt]
  have hnot {x : Bool} {p : Prop} (h : x ↔ p) : !x ↔ ¬p := by
    rw [← h, Bool.not_eq_true_eq_eq_false, Bool.not_eq_true]
  intro c
  cases c with
  | overflow => exact hoverflow
  | noOverflow => exact (hnot hoverflow).trans not_not
  | below => exact hcarry
  | aboveOrEqual => exact (hnot hcarry).trans Nat.not_lt
  | equal => exact hzero
  | notEqual => exact hnot hzero
  | belowOrEqual => exact hbelowOrEqual
  | above =>
    rw [Condition.holds, ← Bool.not_or]
    exact (hnot hbelowOrEqual).trans Nat.not_le
  | sign => exact hsign
  | noSign => exact (hnot hsign).trans Int.not_lt
  | parity => exact hparity
  | noParity => exact hnot hparity
  | less => exact hless
  | greaterOrEqual =>
    rw [Condition.holds, ← Bool.not_not (_ == _)]
    exact (hnot hless).trans Int.not_lt
  | lessOrEqual => exact hlessOrEqual
  | greater =>
    rw [Condition.holds, ← Bool.not_not (_ == _), ← Bool.not_or]
    exact (hnot hlessOrEqual).trans Int.not_le

end Alu

/-- Bit 1, which always reads as one, is no flag that a condition asks for. -/
theorem Flags.Tells.fixed {f : Flags} {a b : BitVec n} (h : f.Tells a b) :
    (f ||| Flags.fixed).Tells a b := by
  intro c
  have hget (flag : Flag) : (f ||| Flags.fixed).get flag = f.get flag := by
    cases flag <;> simp [Flags.get, Flags.fixed, Flag.position]
  rw [← h c]
  cases c <;> simp only [Condition.holds, hget]

end LongMode
