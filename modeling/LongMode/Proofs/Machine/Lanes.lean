import LongMode.Machine.Lanes
import Mathlib.Algebra.Group.Int.Defs
import Mathlib.Algebra.Group.Nat.Defs

/-!
Vectors against the numbers in their lanes. Lane `i` of a vector is the number that stands at `i`
times the lane's width in it (`Vector128.toNat_lane`), the lanes of a vector that is put together
are those that it is put together from (`Vector128.lane_ofLanes`), and a vector has no more to it
than its lanes (`Vector128.eq_of_lanes`).

So an operation on vectors may be said lane by lane. `Calculation.Gives` says each of them as
arithmetic on the numbers in the lanes, and `Calculation.gives_iff` that one vector satisfies this,
the one that is calculated.
-/

set_option autoImplicit false
set_option relaxedAutoImplicit false

namespace LongMode

namespace Width

theorem bits_pos (w : Width) : 0 < w.bits := by
  cases w <;> decide

end Width

namespace Vector128

variable {w : Width} {a b : Vector128}

theorem laneCount_mul_bits (w : Width) : laneCount w * w.bits = 128 := by
  cases w <;> decide

/-- The lane in which a bit lies. -/
theorem div_bits_lt (w : Width) {j : Nat} (hj : j < 128) : j / w.bits < laneCount w := by
  rw [Nat.div_lt_iff_lt_mul w.bits_pos, laneCount_mul_bits]
  exact hj

theorem getLsbD_lane (v : Vector128) (w : Width) (i j : Nat) :
    (v.lane w i).getLsbD j = (decide (j < w.bits) && v.getLsbD (i * w.bits + j)) := by
  rw [lane, BitVec.getLsbD_extractLsb']

/-- A lane as a number. -/
theorem toNat_lane (v : Vector128) (w : Width) (i : Nat) :
    (v.lane w i).toNat = v.toNat / 2 ^ (i * w.bits) % 2 ^ w.bits := by
  rw [lane, BitVec.extractLsb'_toNat, Nat.shiftRight_eq_div_pow]

/-- Bits of the vector that is put together from the first lanes. -/
theorem getLsbD_foldl_range (f : Nat → BitVec w.bits) (n : Nat) (hn : n * w.bits ≤ 128) (j : Nat) :
    ((List.range n).foldl (fun v i ↦ v ||| (f i).setWidth 128 <<< (i * w.bits))
      (0 : Vector128)).getLsbD j =
        (decide (j / w.bits < n) && (f (j / w.bits)).getLsbD (j % w.bits)) := by
  have hpos := w.bits_pos
  induction n with
  | zero => simp
  | succ n ih =>
    have hsplit := Nat.div_add_mod' j w.bits
    have hmod := Nat.mod_lt j hpos
    rw [Nat.add_one_mul] at hn
    rw [List.range_succ, List.foldl_append, List.foldl_cons, List.foldl_nil, BitVec.getLsbD_or,
      ih (by omega), BitVec.getLsbD_shiftLeft, BitVec.getLsbD_setWidth]
    obtain hlt | heq | hgt := Nat.lt_trichotomy (j / w.bits) n
    · have hbelow : j < n * w.bits := (Nat.div_lt_iff_lt_mul hpos).mp hlt
      simp [hlt, hbelow, Nat.lt_succ_of_lt hlt]
    · have hplace : j - n * w.bits = j % w.bits := by rw [← heq]; omega
      have hfrom : n * w.bits ≤ j := by rw [← heq]; omega
      have hbelow : j < 128 := by rw [heq] at hsplit; omega
      have hin : j % w.bits < 128 := by omega
      simp [heq, hplace, hin, hbelow, Nat.not_lt.mpr hfrom]
    · have hbeyond : (n + 1) * w.bits ≤ j := (Nat.le_div_iff_mul_le hpos).mp hgt
      rw [Nat.add_one_mul] at hbeyond
      have hout : (f n).getLsbD (j - n * w.bits) = false :=
        BitVec.getLsbD_of_ge _ _ (by omega)
      simp [hout, Nat.not_lt.mpr (Nat.le_of_lt hgt), Nat.not_lt.mpr hgt]

/-- Where the bits of a vector come from that is put together from lanes. -/
theorem getLsbD_ofLanes (f : Nat → BitVec w.bits) {j : Nat} (hj : j < 128) :
    (ofLanes w f).getLsbD j = (f (j / w.bits)).getLsbD (j % w.bits) := by
  have hcount := laneCount_mul_bits w
  rw [ofLanes, getLsbD_foldl_range f _ (by omega), decide_eq_true (div_bits_lt w hj),
    Bool.true_and]

theorem lane_ofLanes (f : Nat → BitVec w.bits) {i : Nat} (hi : i < laneCount w) :
    (ofLanes w f).lane w i = f i := by
  have hpos := w.bits_pos
  have hcount := laneCount_mul_bits w
  refine BitVec.eq_of_getLsbD_eq fun j hj ↦ ?_
  have hbelow : i * w.bits + j < 128 := by
    have hnext := Nat.mul_le_mul_right w.bits hi
    rw [Nat.succ_mul] at hnext
    omega
  have hdiv : (i * w.bits + j) / w.bits = i := by
    rw [Nat.mul_comm, Nat.mul_add_div hpos, Nat.div_eq_of_lt hj, Nat.add_zero]
  have hmod : (i * w.bits + j) % w.bits = j := by
    rw [Nat.mul_comm, Nat.mul_add_mod, Nat.mod_eq_of_lt hj]
  rw [getLsbD_lane, decide_eq_true hj, Bool.true_and, getLsbD_ofLanes f hbelow, hdiv, hmod]

/-- Vectors with the same lanes are the same. -/
theorem eq_of_lanes (h : ∀ i < laneCount w, a.lane w i = b.lane w i) : a = b := by
  refine BitVec.eq_of_getLsbD_eq fun j hj ↦ ?_
  have hbit := congrArg (BitVec.getLsbD · (j % w.bits)) (h _ (div_bits_lt w hj))
  rwa [getLsbD_lane, getLsbD_lane, Nat.div_add_mod',
    decide_eq_true (Nat.mod_lt j w.bits_pos), Bool.true_and, Bool.true_and] at hbit

/-- The lanes of two vectors in turn. -/
theorem lane_interleave (high : Bool) (a b : Vector128) {i : Nat} (hi : i < laneCount w / 2) :
    (interleave w high a b).lane w (2 * i) =
        a.lane w ((if high then laneCount w / 2 else 0) + i) ∧
      (interleave w high a b).lane w (2 * i + 1) =
        b.lane w ((if high then laneCount w / 2 else 0) + i) := by
  have heven : (2 * i) % 2 = 0 := by omega
  have hodd : (2 * i + 1) % 2 = 1 := by omega
  constructor
  · rw [interleave, lane_ofLanes _ (by omega), heven, if_pos rfl]
    congr 2
    omega
  · rw [interleave, lane_ofLanes _ (by omega), hodd, if_neg (by decide)]
    congr 2
    omega

/-- Lanes by twos. -/
theorem eq_of_pairs (h : ∀ i < laneCount w / 2, a.lane w (2 * i) = b.lane w (2 * i) ∧
    a.lane w (2 * i + 1) = b.lane w (2 * i + 1)) : a = b := by
  have hcount : laneCount w = 2 * (laneCount w / 2) := by cases w <;> decide
  refine eq_of_lanes (w := w) fun i hi ↦ ?_
  obtain ⟨heven, hodd⟩ := h (i / 2) (by omega)
  obtain hmod | hmod := Nat.mod_two_eq_zero_or_one i
  · rwa [show 2 * (i / 2) = i by omega] at heven
  · rwa [show 2 * (i / 2) + 1 = i by omega] at hodd

end Vector128

/-! ### Lanes of a result -/

/-- What is done with two lanes. -/
inductive LaneRule where
  | sum
  | difference
  | equal
  | greater
  | minimum
  | maximum
  | signedMinimum
  | signedMaximum

namespace LaneRule

variable {n : Nat}

/-- The lane that two lanes give, as a number. Sums and differences are modular, and a comparison
gives all ones or zero. -/
def Gives (rule : LaneRule) (x y r : BitVec n) : Prop :=
  match rule with
  | sum => r.toNat = (x.toNat + y.toNat) % 2 ^ n
  | difference => (r.toNat : Int) = ((x.toNat : Int) - y.toNat) % 2 ^ n
  | equal => r.toNat = if x.toNat = y.toNat then 2 ^ n - 1 else 0
  | greater => r.toNat = if y.toInt < x.toInt then 2 ^ n - 1 else 0
  | minimum => r.toNat = min x.toNat y.toNat
  | maximum => r.toNat = max x.toNat y.toNat
  | signedMinimum => r.toInt = min x.toInt y.toInt
  | signedMaximum => r.toInt = max x.toInt y.toInt

/-- Two lanes give one lane. -/
theorem Gives.eq {rule : LaneRule} {x y r r' : BitVec n} (h : rule.Gives x y r)
    (h' : rule.Gives x y r') : r = r' := by
  cases rule with
  | sum | equal | greater | minimum | maximum => exact BitVec.eq_of_toNat_eq (h.trans h'.symm)
  | difference => exact BitVec.eq_of_toNat_eq (Int.ofNat_inj.mp (h.trans h'.symm))
  | signedMinimum | signedMaximum => exact BitVec.eq_of_toInt_eq (h.trans h'.symm)

theorem gives_sum (x y : BitVec n) : sum.Gives x y (x + y) :=
  BitVec.toNat_add x y

theorem gives_difference (x y : BitVec n) : difference.Gives x y (x - y) := by
  have hy := y.isLt
  have hwrap : ((2 ^ n - y.toNat + x.toNat : Nat) : Int) =
      (x.toNat : Int) - y.toNat + (2 ^ n : Nat) := by omega
  rw [Gives, BitVec.toNat_sub, Int.natCast_emod, hwrap, Int.add_emod_right, Int.natCast_pow]
  rfl

theorem toNat_maskOf (condition : Bool) :
    (Vector128.maskOf condition : BitVec n).toNat = if condition then 2 ^ n - 1 else 0 := by
  cases condition with
  | true => exact BitVec.toNat_allOnes
  | false => exact BitVec.toNat_zero

theorem gives_equal (x y : BitVec n) : equal.Gives x y (Vector128.maskOf (x == y)) := by
  rw [Gives, toNat_maskOf]
  simp only [beq_iff_eq, BitVec.toNat_inj]

theorem gives_greater (x y : BitVec n) : greater.Gives x y (Vector128.maskOf (y.slt x)) := by
  rw [Gives, toNat_maskOf]
  simp only [BitVec.slt_iff_toInt_lt]

theorem gives_minimum (x y : BitVec n) : minimum.Gives x y (if x ≤ y then x else y) := by
  rw [Gives, apply_ite BitVec.toNat, Nat.min_def]
  rfl

theorem gives_maximum (x y : BitVec n) : maximum.Gives x y (if x ≤ y then y else x) := by
  rw [Gives, apply_ite BitVec.toNat, Nat.max_def]
  rfl

theorem gives_signedMinimum (x y : BitVec n) :
    signedMinimum.Gives x y (if x.sle y then x else y) := by
  rw [Gives, apply_ite BitVec.toInt, Int.min_def]
  simp only [BitVec.sle_iff_toInt_le]

theorem gives_signedMaximum (x y : BitVec n) :
    signedMaximum.Gives x y (if x.sle y then y else x) := by
  rw [Gives, apply_ite BitVec.toInt, Int.max_def]
  simp only [BitVec.sle_iff_toInt_le]

end LaneRule

namespace LaneShift

variable {n : Nat}

/-- The lane that a lane gives when it is shifted, as a number. -/
def Gives (op : LaneShift) (x : BitVec n) (count : Nat) (r : BitVec n) : Prop :=
  match op with
  | left => r.toNat = if count < n then x.toNat * 2 ^ count % 2 ^ n else 0
  | right => r.toNat = if count < n then x.toNat / 2 ^ count else 0
  | arithmetic => r.toInt = x.toInt / 2 ^ min count (n - 1)

theorem Gives.eq {op : LaneShift} {x r r' : BitVec n} {count : Nat} (h : op.Gives x count r)
    (h' : op.Gives x count r') : r = r' := by
  cases op with
  | left | right => exact BitVec.eq_of_toNat_eq (h.trans h'.symm)
  | arithmetic => exact BitVec.eq_of_toInt_eq (h.trans h'.symm)

theorem gives_applyLane (op : LaneShift) (x : BitVec n) (count : Nat) :
    op.Gives x count (op.applyLane x count) := by
  cases op with
  | left =>
    rw [Gives, applyLane, apply_ite BitVec.toNat, BitVec.toNat_shiftLeft, Nat.shiftLeft_eq]
    rfl
  | right =>
    rw [Gives, applyLane, apply_ite BitVec.toNat, BitVec.toNat_ushiftRight,
      Nat.shiftRight_eq_div_pow]
    rfl
  | arithmetic =>
    rw [Gives, applyLane, BitVec.toInt_sshiftRight, Int.shiftRight_eq_div_pow]
    norm_cast

end LaneShift

/-! ### Packed operations -/

/-- How a packed operation puts its result together from two vectors. -/
inductive PackedRule where
  | bitwise (f : Bool → Bool → Bool)
  | lanewise (w : Width) (rule : LaneRule)
  /-- Lanes of both vectors in turn, from their low or from their high halves. -/
  | alternate (w : Width) (high : Bool)

namespace PackedRule

open Vector128

/-- The vector that two vectors give, by its bits or by its lanes. -/
def Gives (rule : PackedRule) (a b r : Vector128) : Prop :=
  match rule with
  | bitwise f => ∀ i < 128, r.getLsbD i = f (a.getLsbD i) (b.getLsbD i)
  | lanewise w rule => ∀ i < laneCount w, rule.Gives (a.lane w i) (b.lane w i) (r.lane w i)
  | alternate w high => ∀ i < laneCount w / 2,
      r.lane w (2 * i) = a.lane w ((if high then laneCount w / 2 else 0) + i) ∧
        r.lane w (2 * i + 1) = b.lane w ((if high then laneCount w / 2 else 0) + i)

theorem Gives.eq {rule : PackedRule} {a b r r' : Vector128} (h : rule.Gives a b r)
    (h' : rule.Gives a b r') : r = r' := by
  cases rule with
  | bitwise f => exact BitVec.eq_of_getLsbD_eq fun i hi ↦ (h i hi).trans (h' i hi).symm
  | lanewise w rule => exact eq_of_lanes fun i hi ↦ (h i hi).eq (h' i hi)
  | alternate w high =>
    exact eq_of_pairs fun i hi ↦
      ⟨(h i hi).1.trans (h' i hi).1.symm, (h i hi).2.trans (h' i hi).2.symm⟩

theorem gives_zip {w : Width} {rule : LaneRule} {f : BitVec w.bits → BitVec w.bits → BitVec w.bits}
    (h : ∀ x y, rule.Gives x y (f x y)) (a b : Vector128) :
    (lanewise w rule).Gives a b (zip w f a b) := by
  intro i hi
  rw [zip, lane_ofLanes _ hi]
  exact h _ _

theorem gives_interleave (w : Width) (high : Bool) (a b : Vector128) :
    (alternate w high).Gives a b (interleave w high a b) :=
  fun _ ↦ lane_interleave high a b

end PackedRule

namespace PackedOp

/-- The rule that an operation follows. -/
def rule : PackedOp → PackedRule
  | pxor | xorps | xorpd => .bitwise fun x y ↦ x ^^ y
  | pand | andps | andpd => .bitwise fun x y ↦ x && y
  | por | orps | orpd => .bitwise fun x y ↦ x || y
  | pandn | andnps | andnpd => .bitwise fun x y ↦ !x && y
  | paddb => .lanewise .byte .sum
  | paddw => .lanewise .word .sum
  | paddd => .lanewise .dword .sum
  | paddq => .lanewise .qword .sum
  | psubb => .lanewise .byte .difference
  | psubw => .lanewise .word .difference
  | psubd => .lanewise .dword .difference
  | psubq => .lanewise .qword .difference
  | pcmpeqb => .lanewise .byte .equal
  | pcmpeqw => .lanewise .word .equal
  | pcmpeqd => .lanewise .dword .equal
  | pcmpgtb => .lanewise .byte .greater
  | pcmpgtw => .lanewise .word .greater
  | pcmpgtd => .lanewise .dword .greater
  | pminub => .lanewise .byte .minimum
  | pmaxub => .lanewise .byte .maximum
  | pminsw => .lanewise .word .signedMinimum
  | pmaxsw => .lanewise .word .signedMaximum
  | punpcklbw => .alternate .byte false
  | punpcklwd => .alternate .word false
  | punpckldq | unpcklps => .alternate .dword false
  | punpcklqdq | unpcklpd => .alternate .qword false
  | punpckhbw => .alternate .byte true
  | punpckhwd => .alternate .word true
  | punpckhdq | unpckhps => .alternate .dword true
  | punpckhqdq | unpckhpd => .alternate .qword true

theorem gives_apply (op : PackedOp) (a b : Vector128) : op.rule.Gives a b (op.apply a b) := by
  open PackedRule LaneRule in
  cases op with
  | pxor | xorps | xorpd => exact fun _ _ ↦ BitVec.getLsbD_xor
  | pand | andps | andpd => exact fun _ _ ↦ BitVec.getLsbD_and
  | por | orps | orpd => exact fun _ _ ↦ BitVec.getLsbD_or
  | pandn | andnps | andnpd => exact fun i hi ↦ by simp [apply, hi]
  | paddb | paddw | paddd | paddq => exact gives_zip gives_sum a b
  | psubb | psubw | psubd | psubq => exact gives_zip gives_difference a b
  | pcmpeqb | pcmpeqw | pcmpeqd => exact gives_zip gives_equal a b
  | pcmpgtb | pcmpgtw | pcmpgtd => exact gives_zip gives_greater a b
  | pminub => exact gives_zip gives_minimum a b
  | pmaxub => exact gives_zip gives_maximum a b
  | pminsw => exact gives_zip gives_signedMinimum a b
  | pmaxsw => exact gives_zip gives_signedMaximum a b
  | punpcklbw | punpcklwd | punpckldq | unpcklps | punpcklqdq | unpcklpd =>
    exact gives_interleave _ false a b
  | punpckhbw | punpckhwd | punpckhdq | unpckhps | punpckhqdq | unpckhpd =>
    exact gives_interleave _ true a b

end PackedOp

/-! ### Shifts of a whole vector -/

namespace Vector128

theorem getLsbD_shiftBytes (v : Vector128) (left : Bool) (count : Nat) {j : Nat} (hj : j < 128) :
    (v.shiftBytes left count).getLsbD j =
      if left then decide (count * 8 ≤ j) && v.getLsbD (j - count * 8)
      else v.getLsbD (count * 8 + j) := by
  rw [shiftBytes]
  by_cases hall : 16 ≤ count
  · have hbeyond : 128 ≤ count * 8 + j := by omega
    have hfew : ¬count * 8 ≤ j := by omega
    simp [hall, hfew, BitVec.getLsbD_of_ge v _ hbeyond]
  · rw [if_neg hall]
    cases left with
    | true =>
      have hfrom : (!decide (j < count * 8)) = decide (count * 8 ≤ j) := by
        rw [← decide_not, decide_eq_decide, Nat.not_lt]
      rw [if_pos rfl, if_pos rfl, BitVec.getLsbD_shiftLeft, decide_eq_true hj, hfrom, Bool.true_and]
    | false => simp

theorem getLsbD_lane_byte (v : Vector128) (i : Nat) {j : Nat} (hj : j < 8) :
    (v.lane .byte i).getLsbD j = v.getLsbD (i * 8 + j) := by
  rw [getLsbD_lane, show Width.byte.bits = 8 from rfl, decide_eq_true hj, Bool.true_and]

/-- Where the bytes of a vector go that is shifted by bytes; zeros follow them. -/
theorem lane_shiftBytes (v : Vector128) (left : Bool) (count : Nat) {i : Nat} (hi : i < 16) :
    (v.shiftBytes left count).lane .byte i =
      if left then if count ≤ i then v.lane .byte (i - count) else 0
      else if i + count < 16 then v.lane .byte (i + count) else 0 := by
  refine BitVec.eq_of_getLsbD_eq fun j (hj : j < 8) ↦ ?_
  rw [getLsbD_lane_byte _ _ hj, getLsbD_shiftBytes v left count (by omega)]
  cases left with
  | true =>
    rw [if_pos rfl, if_pos rfl]
    split
    · rw [getLsbD_lane_byte _ _ hj, decide_eq_true (by omega), Bool.true_and,
        show i * 8 + j - count * 8 = (i - count) * 8 + j by omega]
    · rw [decide_eq_false (by omega), Bool.false_and]
      exact BitVec.getLsbD_zero.symm
  | false =>
    rw [if_neg (by decide), if_neg (by decide)]
    split
    · rw [getLsbD_lane_byte _ _ hj, show count * 8 + (i * 8 + j) = (i + count) * 8 + j by omega]
    · rw [BitVec.getLsbD_of_ge v _ (by omega)]
      exact BitVec.getLsbD_zero.symm

end Vector128

/-! ### Shuffles -/

theorem laneSelector_eq (constant i : Nat) : laneSelector constant i = constant / 4 ^ i % 4 := by
  rw [laneSelector, Nat.shiftRight_eq_div_pow, Nat.pow_mul]

namespace ShuffleOp

open Vector128

/-- The vector that a shuffle gives. The digits of its constant to the base four select lanes; of
two lanes there are only those of its bits. -/
def Gives (op : ShuffleOp) (dst src : Vector128) (constant : Nat) (r : Vector128) : Prop :=
  match op with
  | pshufd => ∀ i < 4, r.lane .dword i = src.lane .dword (constant / 4 ^ i % 4)
  | pshuflw => ∀ i < 4, r.lane .word i = src.lane .word (constant / 4 ^ i % 4) ∧
      r.lane .word (4 + i) = src.lane .word (4 + i)
  | pshufhw => ∀ i < 4, r.lane .word i = src.lane .word i ∧
      r.lane .word (4 + i) = src.lane .word (4 + constant / 4 ^ i % 4)
  | shufps => ∀ i < 2, r.lane .dword i = dst.lane .dword (constant / 4 ^ i % 4) ∧
      r.lane .dword (2 + i) = src.lane .dword (constant / 4 ^ (2 + i) % 4)
  | shufpd => r.lane .qword 0 = dst.lane .qword (constant % 2) ∧
      r.lane .qword 1 = src.lane .qword (constant / 2 % 2)

theorem gives_apply (op : ShuffleOp) (dst src : Vector128) (constant : Nat) :
    op.Gives dst src constant (op.apply dst src constant) := by
  cases op with
  | pshufd =>
    intro i hi
    rw [apply, lane_ofLanes _ hi, laneSelector_eq]
  | pshuflw =>
    intro i hi
    have hlow : i < laneCount .word := Nat.lt_trans hi (by decide)
    have hhigh : 4 + i < laneCount .word := Nat.add_lt_add_left hi 4
    rw [apply, lane_ofLanes _ hlow, lane_ofLanes _ hhigh, if_pos hi, if_neg (by omega),
      laneSelector_eq]
    exact ⟨rfl, rfl⟩
  | pshufhw =>
    intro i hi
    have hlow : i < laneCount .word := Nat.lt_trans hi (by decide)
    have hhigh : 4 + i < laneCount .word := Nat.add_lt_add_left hi 4
    rw [apply, lane_ofLanes _ hlow, lane_ofLanes _ hhigh, if_pos hi, if_neg (by omega),
      Nat.add_sub_cancel_left, laneSelector_eq]
    exact ⟨rfl, rfl⟩
  | shufps =>
    intro i hi
    have hlow : i < laneCount .dword := Nat.lt_trans hi (by decide)
    have hhigh : 2 + i < laneCount .dword := Nat.add_lt_add_left hi 2
    rw [apply, lane_ofLanes _ hlow, lane_ofLanes _ hhigh, if_pos hi, if_neg (by omega),
      laneSelector_eq, laneSelector_eq]
    exact ⟨rfl, rfl⟩
  | shufpd =>
    rw [Gives, apply, lane_ofLanes _ (by decide), lane_ofLanes _ (by decide),
      Nat.shiftRight_eq_div_pow, Nat.shiftRight_eq_div_pow]
    simp

/-- A shuffle gives one vector. -/
theorem Gives.eq {op : ShuffleOp} {dst src r r' : Vector128} {constant : Nat}
    (h : op.Gives dst src constant r) (h' : op.Gives dst src constant r') : r = r' := by
  have hsplit (n i : Nat) : i < n ∨ ∃ k, i = n + k := by
    by_cases hi : i < n
    · exact .inl hi
    · exact .inr ⟨i - n, by omega⟩
  cases op with
  | pshufd => exact eq_of_lanes (w := .dword) fun i hi ↦ (h i hi).trans (h' i hi).symm
  | pshuflw | pshufhw =>
    refine eq_of_lanes (w := .word) fun i (hi : i < 8) ↦ ?_
    obtain hlow | ⟨k, rfl⟩ := hsplit 4 i
    · exact (h i hlow).1.trans (h' i hlow).1.symm
    · exact (h k (by omega)).2.trans (h' k (by omega)).2.symm
  | shufps =>
    refine eq_of_lanes (w := .dword) fun i (hi : i < 4) ↦ ?_
    obtain hlow | ⟨k, rfl⟩ := hsplit 2 i
    · exact (h i hlow).1.trans (h' i hlow).1.symm
    · exact (h k (by omega)).2.trans (h' k (by omega)).2.symm
  | shufpd =>
    refine eq_of_lanes (w := .qword) fun i (hi : i < 2) ↦ ?_
    obtain rfl | rfl : i = 0 ∨ i = 1 := by omega
    · exact h.1.trans h'.1.symm
    · exact h.2.trans h'.2.symm

end ShuffleOp

/-! ### Calculations -/

/-- A calculation with vectors, with the numbers that it depends on. -/
inductive Calculation where
  | packed (op : PackedOp)
  | shift (op : LaneShift) (w : Width) (count : Nat)
  | shiftBytes (left : Bool) (count : Nat)
  | shuffle (op : ShuffleOp) (constant : Nat)

namespace Calculation

open Vector128

/-- The vector that a calculation makes of a destination and a source. -/
def apply (c : Calculation) (dst src : Vector128) : Vector128 :=
  match c with
  | packed op => op.apply dst src
  | shift op w count => op.apply w dst count
  | shiftBytes left count => dst.shiftBytes left count
  | shuffle op constant => op.apply dst src constant

/-- The lanes that a calculation gives. -/
def Gives (c : Calculation) (dst src r : Vector128) : Prop :=
  match c with
  | packed op => op.rule.Gives dst src r
  | shift op w count => ∀ i < laneCount w, op.Gives (dst.lane w i) count (r.lane w i)
  | shiftBytes left count => ∀ i < 16, r.lane .byte i =
      if left then if count ≤ i then dst.lane .byte (i - count) else 0
      else if i + count < 16 then dst.lane .byte (i + count) else 0
  | shuffle op constant => op.Gives dst src constant r

theorem gives_apply (c : Calculation) (dst src : Vector128) :
    c.Gives dst src (c.apply dst src) := by
  cases c with
  | packed op => exact op.gives_apply dst src
  | shift op w count =>
    intro i hi
    rw [apply, LaneShift.apply, map, lane_ofLanes _ hi]
    exact op.gives_applyLane _ count
  | shiftBytes left count => exact fun _ hi ↦ lane_shiftBytes dst left count hi
  | shuffle op constant => exact op.gives_apply dst src constant

theorem Gives.eq {c : Calculation} {dst src r r' : Vector128} (h : c.Gives dst src r)
    (h' : c.Gives dst src r') : r = r' := by
  cases c with
  | packed op => exact PackedRule.Gives.eq h h'
  | shift op w count => exact eq_of_lanes fun i hi ↦ (h i hi).eq (h' i hi)
  | shiftBytes left count =>
    exact eq_of_lanes (w := .byte) fun i hi ↦ (h i hi).trans (h' i hi).symm
  | shuffle op constant => exact ShuffleOp.Gives.eq h h'

/-- The lanes tell what the vector is. -/
theorem gives_iff {c : Calculation} {dst src r : Vector128} :
    c.Gives dst src r ↔ r = c.apply dst src := by
  constructor
  · exact fun h ↦ h.eq (c.gives_apply dst src)
  · rintro rfl
    exact c.gives_apply dst src

end Calculation

end LongMode
