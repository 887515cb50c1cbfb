import LongMode.Proofs.Machine.Shift

/-!
Shifts that take the bits they bring in from a second operand.

`Shift.doubleRule` says what they mean. `Shift.double` puts the pair of operands together, shifts it
and looks up the last bit out with shifts of 128-bit words alone, and one of them by 128 or more is
a panic. The last bit that leaves a quadword to the left is looked up by such a shift; in all other
cases the shifts are in range and the rule is followed.

* `Shift.double_left` and `Shift.double_right`: when all shifts are in range, and what they give;
* `Width.governs_doubleShift`: words and flags at every operand width, for a count up to the width.
-/

set_option autoImplicit false
set_option relaxedAutoImplicit false

namespace LongMode

variable {n : Nat}

namespace Shift

/-! ### What double shifts mean -/

/-- The bits of the destination that stay, and those of the source that come in beside them. -/
def doubleResult (toLeft : Bool) (dest src : BitVec n) (count : Nat) : Nat :=
  if toLeft then dest.toNat <<< count ||| src.toNat >>> (n - count)
  else dest.toNat >>> count ||| src.toNat <<< (n - count)

/-- What a shift means that takes the bits it brings in from a second operand. -/
def doubleRule (toLeft : Bool) (dest src : BitVec n) (count : Nat) : Rule where
  result := doubleResult toLeft dest src count
  carry := dest.getLsbD (if toLeft then n - count else count - 1)
  overflow := (BitVec.ofNat n (doubleResult toLeft dest src count)).msb ≠ dest.msb
  adjust := False

theorem ranged_of_lt {amount : Nat} (h : amount < 128) (shifted : BitVec 128) :
    ranged amount shifted = .ok shifted :=
  if_pos h

theorem ranged_of_ge {amount : Nat} (h : 128 ≤ amount) (shifted : BitVec 128) :
    ranged amount shifted = .error .shiftOverflow :=
  if_neg (Nat.not_lt.mpr h)

section Double

variable (f : Flags) (dest src : BitVec n) {count : Nat}

/-! ### Shifts of the pair of operands -/

/-- Two operands in one word of 128 bits. -/
theorem shiftLeft_or (high low : BitVec n) :
    high.setWidth 128 <<< n ||| low.setWidth 128 = (high ++ low).setWidth 128 := by
  refine BitVec.eq_of_getLsbD_eq fun i hi ↦ ?_
  rw [BitVec.getLsbD_or, getLsbD_shiftLeft _ _ hi, BitVec.getLsbD_setWidth, BitVec.getLsbD_setWidth,
    BitVec.getLsbD_append, decide_eq_true hi, Bool.true_and, Bool.true_and]
  by_cases hlow : i < n
  · rw [decide_eq_false (Nat.not_le.mpr hlow), Bool.false_and, Bool.false_or, if_pos hlow]
  · rw [decide_eq_true (Nat.not_lt.mp hlow), Bool.true_and,
      BitVec.getLsbD_of_ge low i (Nat.not_lt.mp hlow), Bool.or_false, if_neg hlow]

/-- The last shift of a double shift to the left is by twice the operand width. -/
theorem double_left (hpos : 1 ≤ count) (hle : count ≤ n) (hn : n ≤ 64) :
    double true f dest src count =
      let shifted := (dest ++ src).setWidth 128 <<< count
      let r := (shifted >>> n).setWidth n
      if n = 64 then .error .shiftOverflow
      else .ok (r, flags f r (shifted.getLsbD (n + n)) (r ^^^ dest).msb) := by
  have hcount : count ≠ 0 := by omega
  unfold double
  rw [if_neg hcount, if_pos rfl]
  simp only [ranged_of_lt (show n < 128 by omega), ranged_of_lt (show count < 128 by omega),
    bind, Except.bind, pure, Except.pure, shiftLeft_or _ _]
  by_cases hfull : n = 64
  · rw [ranged_of_ge (by omega), if_pos hfull]
  · rw [ranged_of_lt (by omega), if_neg hfull]
    dsimp only
    rw [BitVec.getLsbD_ushiftRight, Nat.add_zero]

theorem double_right (hpos : 1 ≤ count) (hle : count ≤ n) (hn : n ≤ 64) :
    double false f dest src count =
      let r := ((src ++ dest) >>> count).setWidth n
      .ok (r, flags f r ((src ++ dest).getLsbD (count - 1)) (r ^^^ dest).msb) := by
  have hcount : count ≠ 0 := by omega
  have hr : ((src ++ dest).setWidth 128 >>> count).setWidth n =
      ((src ++ dest) >>> count).setWidth n := by
    rw [← BitVec.setWidth_ushiftRight (by omega), BitVec.setWidth_setWidth_of_le _ (by omega)]
  have hlast : ((src ++ dest).setWidth 128 >>> (count - 1)).getLsbD 0 =
      (src ++ dest).getLsbD (count - 1) :=
    getLsbD_shiftRight _ _ (by omega)
  unfold double
  rw [if_neg hcount, if_neg Bool.false_ne_true]
  simp only [ranged_of_lt (show n < 128 by omega), ranged_of_lt (show count < 128 by omega),
    ranged_of_lt (show count - 1 < 128 by omega), bind, Except.bind, pure, Except.pure,
    shiftLeft_or _ _, hr, hlast]

/-! ### The words and carries that double shifts give -/

theorem setWidth_double_left (hle : count ≤ n) (hn : n ≤ 64) :
    (((dest ++ src).setWidth 128 <<< count) >>> n).setWidth n =
      BitVec.ofNat n (doubleResult true dest src count) := by
  refine BitVec.eq_of_getLsbD_eq fun i hi ↦ ?_
  have hbit : count ≤ n + i := by omega
  rw [doubleResult, if_pos rfl, BitVec.getLsbD_setWidth, BitVec.getLsbD_ushiftRight,
    getLsbD_shiftLeft _ _ (by omega), BitVec.getLsbD_append, BitVec.getLsbD_ofNat, Nat.testBit_or,
    Nat.testBit_shiftLeft, Nat.testBit_shiftRight, BitVec.testBit_toNat, BitVec.testBit_toNat,
    decide_eq_true hi, decide_eq_true hbit, Bool.true_and, Bool.true_and, Bool.true_and]
  by_cases hlow : i < count
  · rw [if_pos (by omega), decide_eq_false (by omega), Bool.false_and, Bool.false_or,
      show n + i - count = n - count + i by omega]
  · rw [if_neg (by omega), decide_eq_true (Nat.not_lt.mp hlow), Bool.true_and,
      BitVec.getLsbD_of_ge src _ (by omega), Bool.or_false,
      show n + i - count - n = i - count by omega]

theorem setWidth_double_right (hle : count ≤ n) :
    ((src ++ dest) >>> count).setWidth n =
      BitVec.ofNat n (doubleResult false dest src count) := by
  refine BitVec.eq_of_getLsbD_eq fun i hi ↦ ?_
  rw [doubleResult, if_neg Bool.false_ne_true, BitVec.getLsbD_setWidth, BitVec.getLsbD_ushiftRight,
    BitVec.getLsbD_append, BitVec.getLsbD_ofNat, Nat.testBit_or, Nat.testBit_shiftLeft,
    Nat.testBit_shiftRight, BitVec.testBit_toNat, BitVec.testBit_toNat, decide_eq_true hi,
    Bool.true_and, Bool.true_and]
  by_cases hlow : count + i < n
  · rw [if_pos hlow, decide_eq_false (by omega), Bool.false_and, Bool.or_false]
  · rw [if_neg hlow, decide_eq_true (by omega), Bool.true_and,
      BitVec.getLsbD_of_ge dest _ (by omega), Bool.false_or,
      show i - (n - count) = count + i - n by omega]

theorem carry_double_left (hle : count ≤ n) (hn : n < 64) :
    ((dest ++ src).setWidth 128 <<< count).getLsbD (n + n) = dest.getLsbD (n - count) := by
  rw [getLsbD_shiftLeft _ _ (by omega), decide_eq_true (by omega), BitVec.getLsbD_append,
    if_neg (by omega), show n + n - count - n = n - count by omega, Bool.true_and]

theorem carry_double_right (hpos : 1 ≤ count) (hle : count ≤ n) :
    (src ++ dest).getLsbD (count - 1) = dest.getLsbD (count - 1) := by
  rw [BitVec.getLsbD_append, if_pos (by omega)]

/-! ### Double shifts follow their rule -/

/-- The word and the flags of a double shift are the rule's as soon as carry is. -/
theorem governs_double {toLeft : Bool} {r : BitVec n} {last : Bool} {carry : Prop}
    (hr : r = BitVec.ofNat n (doubleResult toLeft dest src count)) (hlast : last ↔ carry) :
    { doubleRule toLeft dest src count with carry := carry }.Governs f
      (r, flags f r last (r ^^^ dest).msb) := by
  subst hr
  refine Rule.governs_setResult ?_ ?_ ?_ ?_
    ((((Flags.Agree.refl _ f).set (by decide) _).set (by decide) _).set (by decide) _)
  · simp [doubleRule]
  · simpa [Flags.get_set] using hlast
  · simp [Flags.get_set, doubleRule, BitVec.msb_xor]
  · simp [Flags.get_set, doubleRule]

/-- Unless a quadword is shifted to the left, all shifts are in range and the rule is followed. -/
theorem governs_double_left (hpos : 1 ≤ count) (hle : count ≤ n) (hn : n < 64) :
    ∃ outcome, double true f dest src count = .ok outcome ∧
      (doubleRule true dest src count).Governs f outcome := by
  have hfull : n ≠ 64 := Nat.ne_of_lt hn
  rw [double_left f dest src hpos hle (Nat.le_of_lt hn)]
  refine ⟨_, if_neg hfull, ?_⟩
  refine governs_double f dest src (setWidth_double_left dest src hle (Nat.le_of_lt hn)) ?_
  rw [carry_double_left dest src hle hn]
  rfl

theorem governs_double_right (hpos : 1 ≤ count) (hle : count ≤ n) (hn : n ≤ 64) :
    ∃ outcome, double false f dest src count = .ok outcome ∧
      (doubleRule false dest src count).Governs f outcome := by
  rw [double_right f dest src hpos hle hn]
  refine ⟨_, rfl, governs_double f dest src (setWidth_double_right dest src hle) ?_⟩
  rw [carry_double_right dest src hpos hle, if_neg Bool.false_ne_true]

end Double

end Shift

/-- Double shifts at every operand width, on the low parts of 64-bit operands and any flag word, by
a count of at least one and at most the width. Unless a quadword is shifted to the left, no shift is
out of range and the rule is followed; for a quadword to the left there is nothing but a panic. -/
theorem Width.governs_doubleShift {w : Width} (f : Flags) (dest src : BitVec 64) {count : Nat}
    (hpos : 1 ≤ count) (hle : count ≤ w.bits) (toLeft : Bool) :
    let d := dest.setWidth w.bits
    let s := src.setWidth w.bits
    let rule := Shift.doubleRule toLeft d s count
    if toLeft ∧ w = .qword then Shift.double toLeft f d s count = .error .shiftOverflow
    else ∃ outcome, Shift.double toLeft f d s count = .ok outcome ∧ rule.Governs f outcome := by
  intro d s rule
  have hn : w.bits ≤ 64 := by cases w <;> decide
  have hfull : w.bits = 64 ↔ w = .qword := by cases w <;> decide
  cases toLeft with
  | false =>
    rw [if_neg fun h ↦ Bool.false_ne_true h.1]
    exact Shift.governs_double_right f d s hpos hle hn
  | true =>
    by_cases hw : w = .qword
    · rw [if_pos ⟨rfl, hw⟩, Shift.double_left f d s hpos hle hn]
      exact if_pos (hfull.mpr hw)
    · rw [if_neg fun h ↦ hw h.2]
      exact Shift.governs_double_left f d s hpos hle (Nat.lt_of_le_of_ne hn (hfull.not.mpr hw))

/-- A word moves to the left by four: four bits of the source come in at its low end, and carry is
the lowest of the four bits that leave. -/
theorem Width.governs_doubleShift_word :
    (1 ≤ 4 ∧ 4 ≤ Width.word.bits) ∧
      Shift.double true 0 0x1001#16 0xc000#16 4 = .ok (0x001c#16, 0x1#64) ∧
      (Shift.doubleRule true 0x1001#16 0xc000#16 4).Governs 0 (0x001c#16, 0x1#64) := by
  have hbits : 4 ≤ Width.word.bits := by decide
  have hword : Shift.double true 0 0x1001#16 0xc000#16 4 = .ok (0x001c#16, 0x1#64) := by decide
  have hdouble := Width.governs_doubleShift 0 0x1001 0xc000 (by decide) hbits true
  rw [if_neg (by decide)] at hdouble
  obtain ⟨outcome, houtcome, hgoverns⟩ := hdouble
  obtain rfl := Except.ok.inj (houtcome.symm.trans hword)
  exact ⟨⟨by decide, hbits⟩, hword, hgoverns⟩

/-- A quadword is to move to the left by one: a shift is out of range, and there is no outcome that
the rule could govern. -/
theorem Shift.not_governs_double_quadword :
    Shift.double true 0 0x8000000000000000#64 0#64 1 = .error .shiftOverflow ∧
      ¬∃ outcome, Shift.double true 0 0x8000000000000000#64 0#64 1 = .ok outcome ∧
        (Shift.doubleRule true 0x8000000000000000#64 0#64 1).Governs 0 outcome := by
  have hpanics : Shift.double true 0 0x8000000000000000#64 0#64 1 = .error .shiftOverflow := by
    decide
  refine ⟨hpanics, ?_⟩
  rintro ⟨outcome, houtcome, -⟩
  rw [hpanics] at houtcome
  cases houtcome

end LongMode
