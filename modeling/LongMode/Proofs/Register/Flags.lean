import LongMode.Register.Flags

/-!
The bits of a flag word. Setting a flag changes the bit at its position and no other, and
`Flags.Agree` says that two flag words differ at named positions at most.
-/

set_option autoImplicit false
set_option relaxedAutoImplicit false

namespace LongMode

theorem Flag.position_lt (flag : Flag) : flag.position < 64 := by
  cases flag <;> decide

theorem Flag.position_inj {flag flag' : Flag} : flag.position = flag'.position ↔ flag = flag' := by
  constructor
  · cases flag <;> cases flag' <;> simp [Flag.position]
  · rintro rfl
    rfl

namespace Flags

theorem getLsbD_set (f : Flags) (flag : Flag) (value : Bool) (i : Nat) :
    (f.set flag value).getLsbD i = if i = flag.position then value else f.getLsbD i := by
  have hlt := flag.position_lt
  by_cases hi : i = flag.position
  · cases value <;> simp [set, hi, hlt]
  · have hother : ¬(i < 64 ∧ flag.position ≤ i ∧ i - flag.position = 0) := by omega
    cases value <;> simp [set, hi, BitVec.getLsbD_one] <;> grind

theorem get_set (f : Flags) (flag flag' : Flag) (value : Bool) :
    (f.set flag value).get flag' = if flag' = flag then value else f.get flag' := by
  simp only [get, getLsbD_set, Flag.position_inj]

theorem get_clear (f : Flags) (flags : List Flag) (flag : Flag) :
    (f.clear flags).get flag = (f.get flag && flag ∉ flags) := by
  induction flags generalizing f with
  | nil => simp [clear]
  | cons first rest ih =>
    rw [clear, List.foldl_cons, ← clear, ih, get_set]
    by_cases hflag : flag = first <;> simp [hflag]

theorem getLsbD_mask (flags : List Flag) (i : Nat) :
    (mask flags).getLsbD i = decide (i ∈ flags.map Flag.position) := by
  have hfold (word : Flags) : (flags.foldl (fun word flag ↦ word ||| 1#64 <<< flag.position)
      word).getLsbD i = (word.getLsbD i || decide (i ∈ flags.map Flag.position)) := by
    induction flags generalizing word with
    | nil => simp
    | cons flag rest ih =>
      rw [List.foldl_cons, ih]
      have hset := getLsbD_set word flag true i
      rw [set, if_pos rfl] at hset
      rw [hset]
      by_cases hi : i = flag.position <;> simp [hi]
  rw [mask, hfold, show (0 : Flags).getLsbD i = false from BitVec.getLsbD_zero, Bool.false_or]

/-- Flag words that differ at the given positions at most. -/
def Agree (positions : List Nat) (f f' : Flags) : Prop :=
  ∀ i ∉ positions, f'.getLsbD i = f.getLsbD i

namespace Agree

variable {positions : List Nat} {f f' : Flags}

theorem refl (positions : List Nat) (f : Flags) : Agree positions f f :=
  fun _ _ ↦ rfl

theorem set {flag : Flag} (hmem : flag.position ∈ positions) (value : Bool)
    (h : Agree positions f f') : Agree positions f (f'.set flag value) := by
  intro i hi
  have hother : i ≠ flag.position := ne_of_mem_of_not_mem hmem hi |>.symm
  rw [getLsbD_set, if_neg hother]
  exact h i hi

theorem clear {flags : List Flag} (hmem : ∀ flag ∈ flags, flag.position ∈ positions)
    (h : Agree positions f f') : Agree positions f (f'.clear flags) := by
  induction flags generalizing f' with
  | nil => exact h
  | cons flag rest ih =>
    have ⟨hflag, hrest⟩ := List.forall_mem_cons.mp hmem
    exact ih hrest (h.set hflag false)

/-- Flag words that are given the same flag agree there. -/
theorem set_both (flag : Flag) (value : Bool) (h : Agree positions f f') :
    Agree (positions.erase flag.position) (f.set flag value) (f'.set flag value) := by
  intro i hi
  rw [getLsbD_set, getLsbD_set]
  split
  · rfl
  next hother => exact h i fun hmem ↦ hi ((List.mem_erase_of_ne hother).mpr hmem)

theorem eq_of_nil (h : Agree [] f f') : f = f' :=
  BitVec.eq_of_getLsbD_eq fun i _ ↦ (h i (List.not_mem_nil)).symm

/-- Bits of another word are taken over under a mask of the given positions. -/
theorem merge {mask : Flags} (hmask : ∀ i ∉ positions, mask.getLsbD i = false) (other : Flags)
    (h : Agree positions f f') : Agree positions f (f' &&& ~~~mask ||| other &&& mask) := by
  intro i hi
  rw [BitVec.getLsbD_or, BitVec.getLsbD_and, BitVec.getLsbD_and, BitVec.getLsbD_not, hmask i hi,
    h i hi]
  by_cases hlt : i < 64
  · simp [hlt]
  · simp [hlt, BitVec.getLsbD_of_ge f i (by omega)]

/-- Bit 1 may be put to one. -/
theorem or_fixed (hmem : 1 ∈ positions) (h : Agree positions f f') :
    Agree positions f (f' ||| fixed) := by
  intro i hi
  have hone : i ≠ 1 := (ne_of_mem_of_not_mem hmem hi).symm
  have hclear : fixed.getLsbD i = false := by
    rw [show fixed = BitVec.twoPow 64 1 by decide, BitVec.getLsbD_twoPow]
    simp [hone.symm]
  rw [BitVec.getLsbD_or, hclear, Bool.or_false]
  exact h i hi

end Agree

end Flags

end LongMode
