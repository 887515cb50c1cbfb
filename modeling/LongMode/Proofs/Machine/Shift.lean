import Mathlib.Data.Nat.Bitwise
import LongMode.Machine.Shift
import LongMode.Proofs.Machine.Arithmetic

/-!
Shifts and rotations against the bits that they move.

`ShiftOp.bit` tells where each bit of a result comes from, for any count: a shift takes the bit that
stands `count` positions away, with zeros or copies of the sign beyond the operand's end, and a
rotation counts positions in a circle. `ShiftOp.lastOut` is the bit that carry receives. On these,
`ShiftOp.rule` says what a shift does to the status flags, as rules do for arithmetic, and
`ShiftOp.Rotates` what a rotation does to carry and overflow.

* `Shift.getLsbD_apply`: the word that a shift or rotation gives, on words of at most 64 bits;
* `Shift.rotateRight_rotateLeft`: one rotation undoes the other;
* `Width.governs_shift`: words and flags at every operand width, for a raw count.
-/

set_option autoImplicit false
set_option relaxedAutoImplicit false

namespace LongMode

variable {n : Nat}

/-! ### What shifts and rotations mean -/

namespace Shift

/-- The position to which a number comes when the positions of `n` bits are counted in a circle. -/
def around (n : Nat) (x : Int) : Nat :=
  (x % n).toNat

theorem around_natCast {i : Nat} (hi : i < n) : around n i = i := by
  rw [around, ← Int.natCast_emod, Int.toNat_natCast, Nat.mod_eq_of_lt hi]

theorem around_eq_around {x y : Int} (rounds : Int) (h : x = y + n * rounds) :
    around n x = around n y := by
  rw [around, around, h, Int.add_mul_emod_self_left]

end Shift

namespace ShiftOp

open Shift (around)

/-- Bit `i` of an operand that is shifted or rotated. -/
def bit (op : ShiftOp) (v : BitVec n) (count i : Nat) : Bool :=
  match op with
  | .shl | .sal => decide (count ≤ i) && v.getLsbD (i - count)
  | .shr => v.getLsbD (count + i)
  | .sar => if count + i < n then v.getLsbD (count + i) else v.msb
  | .rol => v.getLsbD (around n (i - count))
  | .ror => v.getLsbD (around n (i + count))

/-- The last bit that leaves the operand; a rotation brings it in at the other end. -/
def lastOut (op : ShiftOp) (v : BitVec n) (count : Nat) : Bool :=
  match op with
  | .shl | .sal => decide (count ≤ n) && v.getLsbD (n - count)
  | .shr => decide (count ≤ n) && v.getLsbD (count - 1)
  | .sar => if count ≤ n then v.getLsbD (count - 1) else v.msb
  | .rol => op.bit v count 0
  | .ror => op.bit v count (n - 1)

/-- Whether bits leave the operand at its high end. -/
def isLeft : ShiftOp → Bool
  | .shl | .sal | .rol => true
  | .shr | .sar | .ror => false

/-- Whether bits that leave the operand come in again at its other end. -/
def isRotation : ShiftOp → Bool
  | .rol | .ror => true
  | .shl | .sal | .shr | .sar => false

/-- The last of several bits to leave the operand is the one that stands at its end when all others
have left. -/
theorem lastOut_succ (op : ShiftOp) (v : BitVec n) (count : Nat) (hn : 0 < n) :
    op.lastOut v (count + 1) = op.bit v count (if op.isLeft then n - 1 else 0) := by
  have hleft : (decide (count + 1 ≤ n) && v.getLsbD (n - (count + 1))) =
      (decide (count ≤ n - 1) && v.getLsbD (n - 1 - count)) := by
    have hiff : count + 1 ≤ n ↔ count ≤ n - 1 := by omega
    rw [decide_eq_decide.mpr hiff, show n - (count + 1) = n - 1 - count by omega]
  cases op with
  | shl => exact hleft
  | sal => exact hleft
  | shr =>
    by_cases hlt : count + 1 ≤ n
    · exact (congrArg (· && v.getLsbD count) (decide_eq_true hlt)).trans (Bool.true_and _)
    · have hout : v.getLsbD (count + 0) = false := BitVec.getLsbD_of_ge v _ (by omega)
      exact (congrArg (· && v.getLsbD count) (decide_eq_false hlt)).trans hout.symm
  | sar => rfl
  | rol =>
    have hround : ((0 : Nat) : Int) - (count + 1 : Nat) = (n - 1 : Nat) - count + n * -1 := by omega
    exact congrArg v.getLsbD (Shift.around_eq_around (-1) hround)
  | ror =>
    have hround : ((n - 1 : Nat) : Int) + (count + 1 : Nat) = (0 : Nat) + count + n * 1 := by omega
    exact congrArg v.getLsbD (Shift.around_eq_around 1 hround)

/-- What a shift that is no rotation means. -/
def rule (op : ShiftOp) (v : BitVec n) (count : Nat) : Rule where
  result := Nat.ofBits fun i : Fin n ↦ op.bit v count i
  carry := op.lastOut v count
  overflow := op ≠ .sar ∧ op.bit v count (n - 1) ≠ v.msb
  adjust := False

/-- What a rotation means: the word and the flag word that follow on a flag word. -/
structure Rotates (op : ShiftOp) (v : BitVec n) (count : Nat) (before : Flags)
    (outcome : BitVec n × Flags) : Prop where
  result : outcome.1.toNat = Nat.ofBits fun i : Fin n ↦ op.bit v count i
  carry : outcome.2.get .carry = op.lastOut v count
  overflow : outcome.2.get .overflow =
    (op.bit v count (n - 1) ^^ op.bit v count (if op.isLeft then 0 else n - 2))
  others : before.Agree ([Flag.carry, .overflow].map Flag.position) outcome.2

end ShiftOp

namespace Shift

section Words

variable (v : BitVec n) (count : Nat) {i : Nat}

theorem getLsbD_shiftLeft (hi : i < 128) :
    (v.setWidth 128 <<< count).getLsbD i = (decide (count ≤ i) && v.getLsbD (i - count)) := by
  have hsub : i - count < 128 := by omega
  rw [BitVec.getLsbD_shiftLeft, BitVec.getLsbD_setWidth]
  simp only [hi, hsub, decide_true, Bool.true_and, ← Nat.not_lt, decide_not]

theorem getLsbD_shiftRight {m : Nat} (hn : n ≤ m) :
    (v.setWidth m >>> count).getLsbD i = v.getLsbD (count + i) := by
  rw [← BitVec.setWidth_ushiftRight hn, BitVec.getLsbD_setWidth, BitVec.getLsbD_ushiftRight]
  by_cases hlt : i < m
  · rw [decide_eq_true hlt, Bool.true_and]
  · rw [decide_eq_false hlt, BitVec.getLsbD_of_ge v _ (by omega), Bool.and_false]

/-- Bits of a signed word of 64 bits are all alike from the highest one on. -/
theorem sshiftRight_min (x : BitVec 64) : x.sshiftRight (min count 63) = x.sshiftRight count := by
  rcases Nat.lt_or_ge count 64 with hlt | hge
  · rw [Nat.min_eq_left (Nat.le_of_lt_succ hlt)]
  · refine BitVec.eq_of_getLsbD_eq fun i _ ↦ ?_
    rw [Nat.min_eq_right (by omega), BitVec.getLsbD_sshiftRight, BitVec.getLsbD_sshiftRight,
      if_neg (by omega : ¬count + i < 64)]
    split
    next hfirst =>
      rw [show 63 + i = 64 - 1 by omega, ← BitVec.msb_eq_getLsbD_last]
    next => rfl

theorem getLsbD_sshiftRight (hn : n ≤ 64) (hi : i < 64) :
    ((v.signExtend 64).sshiftRight (min count 63)).getLsbD i =
      if count + i < n then v.getLsbD (count + i) else v.msb := by
  have hmsb : (v.signExtend 64).msb = v.msb := by
    rw [BitVec.msb_eq_toInt, BitVec.msb_eq_toInt, BitVec.toInt_signExtend_of_le hn]
  have hin : (!decide (64 ≤ i)) = true := by simpa using hi
  rw [sshiftRight_min, BitVec.getLsbD_sshiftRight, BitVec.getLsbD_signExtend, hmsb, hin,
    Bool.true_and]
  by_cases hlt : count + i < 64
  · rw [if_pos hlt, decide_eq_true hlt, Bool.true_and]
  · rw [if_neg hlt, if_neg (by omega)]

theorem getLsbD_turn (hn : n ≤ 64) (hcount : count < n) (hi : i < n) :
    (turn v count).getLsbD i = v.getLsbD (around n (i - count)) := by
  unfold turn
  split
  next hzero => rw [hzero, Int.natCast_zero, Int.sub_zero, around_natCast hi]
  next hpos =>
    have hi' : i < 64 := by omega
    rw [BitVec.getLsbD_setWidth, BitVec.getLsbD_or, getLsbD_shiftRight _ _ hn,
      BitVec.getLsbD_shiftLeft, BitVec.getLsbD_setWidth]
    -- Below `count` the left part is zero, and from there on the right part is.
    by_cases hlow : i < count
    · have hround : around n (i - count) = n - count + i := by
        rw [around_eq_around (y := (n - count + i : Nat)) (-1) (by omega)]
        exact around_natCast (by omega)
      simp only [hi, hi', hlow, hround, decide_true, Bool.not_true, Bool.true_and, Bool.and_false,
        Bool.false_and, Bool.false_or]
    · have hround : around n (i - count) = i - count := by
        rw [← Int.ofNat_sub (by omega)]
        exact around_natCast (by omega)
      have hsub : i - count < 64 := by omega
      simp only [hi, hi', hlow, hround, hsub, decide_true, decide_false, Bool.not_false,
        Bool.true_and, BitVec.getLsbD_of_ge v (n - count + i) (by omega), Bool.or_false]

end Words

/-! ### The words that shifts and rotations give -/

section Results

variable (f : Flags) (v : BitVec n) (count : Nat) {i : Nat}

theorem getLsbD_left (hn : n ≤ 64) (hi : i < n) :
    (left f v count).1.getLsbD i = ShiftOp.shl.bit v count i := by
  change ((v.setWidth 128 <<< count).setWidth n).getLsbD i = _
  rw [BitVec.getLsbD_setWidth, getLsbD_shiftLeft v count (by omega), decide_eq_true hi,
    Bool.true_and]
  rfl

theorem getLsbD_right (hn : n ≤ 64) (hi : i < n) :
    (right f v count).1.getLsbD i = ShiftOp.shr.bit v count i := by
  change (if 64 ≤ count then (0 : BitVec n) else (v.setWidth 64 >>> count).setWidth n).getLsbD i =
    v.getLsbD (count + i)
  split
  next hout => rw [BitVec.getLsbD_of_ge v _ (by omega), BitVec.ofNat_eq_ofNat, BitVec.getLsbD_zero]
  next => rw [BitVec.getLsbD_setWidth, getLsbD_shiftRight v count hn, decide_eq_true hi,
    Bool.true_and]

theorem getLsbD_arithmetic (hn : n ≤ 64) (hi : i < n) :
    (arithmetic f v count).1.getLsbD i = ShiftOp.sar.bit v count i := by
  change (((v.signExtend 64).sshiftRight (min count 63)).setWidth n).getLsbD i = _
  rw [BitVec.getLsbD_setWidth, getLsbD_sshiftRight v count hn (by omega), decide_eq_true hi,
    Bool.true_and]
  rfl

theorem getLsbD_rotateLeft (hn : n ≤ 64) (hi : i < n) :
    (rotateLeft f v count).1.getLsbD i = ShiftOp.rol.bit v count i := by
  have hcount := Nat.mod_lt count (Nat.zero_lt_of_lt hi)
  have hdiv := Int.mul_ediv_add_emod count n
  refine (getLsbD_turn v _ hn hcount hi).trans (congrArg v.getLsbD ?_)
  exact around_eq_around (count / n) (by push_cast; omega)

theorem getLsbD_rotateRight (hn : n ≤ 64) (hi : i < n) :
    (rotateRight f v count).1.getLsbD i = ShiftOp.ror.bit v count i := by
  have hpos := Nat.zero_lt_of_lt hi
  have hcount := Nat.mod_lt count hpos
  have hdiv := Int.mul_ediv_add_emod count n
  refine (getLsbD_turn v _ hn (Nat.mod_lt _ hpos) hi).trans (congrArg v.getLsbD ?_)
  -- A turn to the right is one to the left by the rest of the circle, which is nothing for none.
  by_cases hzero : count % n = 0
  · refine around_eq_around (-(count / n)) ?_
    rw [hzero, Nat.sub_zero, Nat.mod_self, Int.mul_neg]
    push_cast [← Int.natCast_mod, hzero] at hdiv
    omega
  · refine around_eq_around (-(count / n) - 1) ?_
    rw [Nat.mod_eq_of_lt (by omega), Int.mul_sub, Int.mul_neg]
    omega

end Results

theorem getLsbD_apply (op : ShiftOp) (f : Flags) (v : BitVec n) (count : Nat) {i : Nat}
    (hn : n ≤ 64) (hi : i < n) : (op.apply f v count).1.getLsbD i = op.bit v count i := by
  unfold ShiftOp.apply
  split
  next hzero =>
    cases op with
    | shl => simp [hzero, ShiftOp.bit]
    | sal => simp [hzero, ShiftOp.bit]
    | shr => simp [hzero, ShiftOp.bit]
    | sar => simp [hzero, ShiftOp.bit, hi]
    | rol => simp [hzero, ShiftOp.bit, around_natCast hi]
    | ror => simp [hzero, ShiftOp.bit, around_natCast hi]
  next =>
    cases op with
    | shl => exact getLsbD_left f v count hn hi
    | sal => exact getLsbD_left f v count hn hi
    | shr => exact getLsbD_right f v count hn hi
    | sar => exact getLsbD_arithmetic f v count hn hi
    | rol => exact getLsbD_rotateLeft f v count hn hi
    | ror => exact getLsbD_rotateRight f v count hn hi

/-- A word that is turned to the left and then as far to the right is the same again. -/
theorem rotateRight_rotateLeft (f f' : Flags) (v : BitVec n) (count : Nat) (hn : n ≤ 64) :
    (ShiftOp.ror.apply f' (ShiftOp.rol.apply f v count).1 count).1 = v := by
  refine BitVec.eq_of_getLsbD_eq fun i hi ↦ ?_
  have hpos : (0 : Int) < n := by omega
  have hnonneg := Int.emod_nonneg (i + count) hpos.ne'
  have hlt := Int.emod_lt_of_pos (i + count) hpos
  have hdiv := Int.mul_ediv_add_emod (i + count) n
  have haround : around n (i + count) < n := by
    unfold around
    omega
  rw [getLsbD_apply _ _ _ _ hn hi]
  change (ShiftOp.rol.apply f v count).1.getLsbD (around n (i + count)) = _
  rw [getLsbD_apply _ _ _ _ hn haround]
  change v.getLsbD (around n (around n (i + count) - count)) = _
  congr 1
  rw [around_eq_around (y := i) (-((i + count) / n)) ?_, around_natCast hi]
  rw [around, Int.toNat_of_nonneg hnonneg, Int.mul_neg]
  omega

/-! ### The flags that shifts and rotations give -/

theorem toNat_eq_ofBits {r : BitVec n} {p : Nat → Bool} (h : ∀ i < n, r.getLsbD i = p i) :
    r.toNat = Nat.ofBits fun i : Fin n ↦ p i := by
  refine Nat.eq_of_testBit_eq fun i ↦ ?_
  by_cases hi : i < n
  · rw [Nat.testBit_ofBits_lt _ _ hi, BitVec.testBit_toNat, h i hi]
  · rw [Nat.testBit_ofBits_ge _ _ (Nat.not_lt.mp hi), BitVec.testBit_toNat,
      BitVec.getLsbD_of_ge _ _ (Nat.not_lt.mp hi)]

theorem governs_flags {op : ShiftOp} {f : Flags} {v r : BitVec n} {count : Nat}
    {last overflow : Bool} (hbits : ∀ i < n, r.getLsbD i = op.bit v count i)
    (hlast : last = op.lastOut v count)
    (hoverflow : overflow ↔ op ≠ .sar ∧ op.bit v count (n - 1) ≠ v.msb) :
    (op.rule v count).Governs f (r, flags f r last overflow) := by
  refine Rule.governs_setResult ?_ ?_ ?_ ?_
    ((((Flags.Agree.refl _ f).set (by decide) _).set (by decide) _).set (by decide) _)
  · have hlt : (r.toNat : Int) < 2 ^ n := mod_cast r.isLt
    have hresult : (op.rule v count).result = r.toNat :=
      congrArg Nat.cast (toNat_eq_ofBits hbits).symm
    rw [hresult, Int.emod_eq_of_lt (Int.natCast_nonneg _) hlt]
  · simp [Flags.get_set, ShiftOp.rule, hlast]
  · simpa [Flags.get_set, ShiftOp.rule] using hoverflow
  · simp [Flags.get_set, ShiftOp.rule]

/-- The highest bit changes just if overflow is set. -/
theorem msb_xor_iff {op : ShiftOp} {v r : BitVec n} {count : Nat} (hop : op ≠ .sar) (hn : 0 < n)
    (hbits : ∀ i < n, r.getLsbD i = op.bit v count i) :
    (r ^^^ v).msb ↔ op ≠ .sar ∧ op.bit v count (n - 1) ≠ v.msb := by
  rw [BitVec.msb_xor, r.msb_eq_getLsbD_last, hbits (n - 1) (by omega)]
  simp [hop]

section Flags

variable (f : Flags) (v : BitVec n) {count : Nat} (hpos : 0 < n) (hn : n ≤ 64)

include hpos hn

theorem governs_left {op : ShiftOp} (hop : op = .shl ∨ op = .sal) :
    (op.rule v count).Governs f (left f v count) := by
  have hbits (i : Nat) (hi : i < n) : (left f v count).1.getLsbD i = op.bit v count i := by
    rcases hop with rfl | rfl
    · exact getLsbD_left f v count hn hi
    · exact getLsbD_left f v count hn hi
  refine governs_flags hbits ?_ (msb_xor_iff ?_ hpos hbits)
  · rw [getLsbD_shiftLeft v count (by omega)]
    rcases hop with rfl | rfl
    · rfl
    · rfl
  · rcases hop with rfl | rfl
    · decide
    · decide

theorem governs_right : (ShiftOp.shr.rule v count).Governs f (right f v count) := by
  have hbits (i : Nat) (hi : i < n) := getLsbD_right f v count hn hi
  refine governs_flags hbits ?_ (msb_xor_iff (by decide) hpos hbits)
  rw [getLsbD_shiftRight v _ (by omega)]
  change _ = (decide (count ≤ n) && v.getLsbD (count - 1))
  by_cases hle : count ≤ n
  · rw [if_neg (by omega), decide_eq_true hle, Bool.true_and, Nat.add_zero]
  · rw [decide_eq_false hle, Bool.false_and, ite_eq_left_iff]
    exact fun _ ↦ BitVec.getLsbD_of_ge _ _ (by omega)

theorem governs_sar :
    (ShiftOp.sar.rule v count).Governs f (arithmetic f v count) := by
  refine governs_flags (fun i hi ↦ getLsbD_arithmetic f v count hn hi) ?_ (by simp)
  rw [getLsbD_sshiftRight v _ hn (by omega)]
  change _ = if count ≤ n then v.getLsbD (count - 1) else v.msb
  have hiff : count - 1 + 0 < n ↔ count ≤ n := by omega
  rw [if_congr hiff rfl rfl, Nat.add_zero]

theorem rotates_left : ShiftOp.rol.Rotates v count f (rotateLeft f v count) where
  result := toNat_eq_ofBits fun i hi ↦ getLsbD_rotateLeft f v count hn hi
  carry := by
    have hcarry : (rotateLeft f v count).2.get .carry = (rotateLeft f v count).1.getLsbD 0 := by
      simp [rotateLeft, Flags.get_set]
    rw [hcarry, getLsbD_rotateLeft f v count hn hpos]
    rfl
  overflow := by
    have hoverflow : (rotateLeft f v count).2.get .overflow =
        ((rotateLeft f v count).1.msb ^^ (rotateLeft f v count).1.getLsbD 0) := by
      simp [rotateLeft, Flags.get_set]
    rw [hoverflow, BitVec.msb_eq_getLsbD_last, getLsbD_rotateLeft f v count hn hpos,
      getLsbD_rotateLeft f v count hn (by omega)]
    rfl
  others := ((Flags.Agree.refl _ f).set (by decide) _).set (by decide) _

theorem rotates_right (hn' : 1 < n) : ShiftOp.ror.Rotates v count f (rotateRight f v count) where
  result := toNat_eq_ofBits fun i hi ↦ getLsbD_rotateRight f v count hn hi
  carry := by
    have hcarry : (rotateRight f v count).2.get .carry = (rotateRight f v count).1.msb := by
      simp [rotateRight, Flags.get_set]
    rw [hcarry, BitVec.msb_eq_getLsbD_last, getLsbD_rotateRight f v count hn (by omega)]
    rfl
  overflow := by
    have hoverflow : (rotateRight f v count).2.get .overflow =
        ((rotateRight f v count).1.msb ^^ (rotateRight f v count).1.getLsbD (n - 2)) := by
      simp [rotateRight, Flags.get_set]
    rw [hoverflow, BitVec.msb_eq_getLsbD_last, getLsbD_rotateRight f v count hn (by omega),
      getLsbD_rotateRight f v count hn (by omega)]
    rfl
  others := ((Flags.Agree.refl _ f).set (by decide) _).set (by decide) _

end Flags

end Shift

/-- Shifts and rotations at every operand width, on the low part of a 64-bit operand, any flag word
and any raw count. A masked count of zero changes nothing; otherwise a rotation moves the bits in a
circle and changes carry and overflow only, and any other shift follows its rule. The last bit out
is the one that stands at the end when all but one place have been moved. A rotation to the right
undoes the one to the left by the same count. -/
theorem Width.governs_shift (w : Width) (f : Flags) (value : BitVec 64) (raw : Nat) :
    let v := value.setWidth w.bits
    let count := Shift.maskedCount w raw
    (∀ op : ShiftOp,
      if count = 0 then op.apply f v count = (v, f)
      else if op.isRotation then op.Rotates v count f (op.apply f v count)
      else (op.rule v count).Governs f (op.apply f v count)) ∧
      (∀ (op : ShiftOp) (fewer : Nat),
        op.lastOut v (fewer + 1) = op.bit v fewer (if op.isLeft then w.bits - 1 else 0)) ∧
      ∀ f', (ShiftOp.ror.apply f' (ShiftOp.rol.apply f v count).1 count).1 = v := by
  intro v count
  have hn : w.bits ≤ 64 := by cases w <;> decide
  have hn' : 1 < w.bits := by cases w <;> decide
  have hpos : 0 < w.bits := Nat.zero_lt_of_lt hn'
  refine ⟨fun op ↦ ?_, fun op fewer ↦ op.lastOut_succ v fewer hpos,
    fun f' ↦ Shift.rotateRight_rotateLeft f f' v count hn⟩
  split
  next hzero => exact if_pos hzero
  next hcount =>
    unfold ShiftOp.apply
    rw [if_neg hcount]
    cases op with
    | shl => exact Shift.governs_left f v hpos hn (.inl rfl)
    | sal => exact Shift.governs_left f v hpos hn (.inr rfl)
    | shr => exact Shift.governs_right f v hpos hn
    | sar => exact Shift.governs_sar f v hpos hn
    | rol => exact Shift.rotates_left f v hpos hn
    | ror => exact Shift.rotates_right f v hpos hn hn'

end LongMode
