import LongMode.Register.File

/-!
The registers of a file are independent of each other, and a file is known by what its registers
hold. Writing a part of a general register changes the bits of that part (`getLsbD_mergePart`), and
the part then holds what was written to it (`setWidth_mergePart`).
-/

set_option autoImplicit false
set_option relaxedAutoImplicit false

namespace LongMode.RegisterFile

theorem get_set (r : RegisterFile) (i j : Fin 16) (value : BitVec 64) :
    (r.set i value).get j = if i = j then value else r.get j := by
  simp only [get, set, Fin.getElem_fin, Vector.getElem_set, Fin.ext_iff]

theorem vector_setVector (r : RegisterFile) (i j : Fin 16) (value : BitVec 128) :
    (r.setVector i value).vector j = if i = j then value else r.vector j := by
  simp only [vector, setVector, Fin.getElem_fin, Vector.getElem_set, Fin.ext_iff]

/-- Files that differ in general registers at most, and hold the same in each of them, are equal. -/
theorem eq_of_get {r r' : RegisterFile} (h : ∀ i, r.get i = r'.get i)
    (hrest : { r with general := r'.general } = r') : r = r' := by
  have hgeneral : r.general = r'.general := Vector.ext fun i hi ↦ h ⟨i, hi⟩
  rw [← hrest, ← hgeneral]

/-- Of two values written to a register the later one stays. -/
theorem set_set (r : RegisterFile) (i : Fin 16) (first second : BitVec 64) :
    (r.set i first).set i second = r.set i second := by
  refine eq_of_get (fun j ↦ ?_) rfl
  rw [get_set, get_set, get_set]
  split
  · rfl
  · rfl

/-! ### Parts of registers -/

/-- A write by mask is a write of the low part. -/
theorem setLow_eq (r : RegisterFile) (i : Fin 16) (w : Width) (value : BitVec 64) :
    r.setLow i w value = r.set i (mergePart (r.get i) value 0 w) := by
  have hnarrow (hmask : w.mask = (BitVec.allOnes w.bits).setWidth 64) :
      r.get i &&& ~~~w.mask ||| value &&& w.mask =
        r.get i &&& ~~~((BitVec.allOnes w.bits).setWidth 64 <<< 0) |||
          value <<< 0 &&& ((BitVec.allOnes w.bits).setWidth 64 <<< 0) := by
    rw [hmask, BitVec.shiftLeft_zero, BitVec.shiftLeft_zero]
  have hdword : value &&& 0xffffffff = (value.setWidth 32).setWidth 64 := by
    refine BitVec.eq_of_toNat_eq ?_
    rw [BitVec.toNat_and, BitVec.toNat_setWidth_of_le (by decide), BitVec.toNat_setWidth]
    exact Nat.and_two_pow_sub_one_eq_mod value.toNat 32
  cases w with
  | byte => exact congrArg (r.set i) (hnarrow (by decide))
  | word => exact congrArg (r.set i) (hnarrow (by decide))
  | dword => exact congrArg (r.set i) hdword
  | qword => rfl

theorem get_setLow (r : RegisterFile) (i j : Fin 16) (w : Width) (value : BitVec 64) :
    (r.setLow i w value).get j = if i = j then mergePart (r.get i) value 0 w else r.get j := by
  rw [setLow_eq, get_set]

/-- A byte or a word that is written to a register leaves the bits beside it alone. -/
theorem getLsbD_mergePart (old value : BitVec 64) (shift : Nat) {w : Width}
    (hw : w = .byte ∨ w = .word) (hshift : shift + w.bits ≤ 64) (i : Nat) :
    (mergePart old value shift w).getLsbD i =
      if shift ≤ i ∧ i < shift + w.bits then value.getLsbD (i - shift) else old.getLsbD i := by
  have hmerge : mergePart old value shift w =
      old &&& ~~~((BitVec.allOnes w.bits).setWidth 64 <<< shift) |||
        value <<< shift &&& ((BitVec.allOnes w.bits).setWidth 64 <<< shift) := by
    rcases hw with rfl | rfl
    · rfl
    · rfl
  have hmask : ((BitVec.allOnes w.bits).setWidth 64 <<< shift).getLsbD i =
      decide (shift ≤ i ∧ i < shift + w.bits) := by
    rw [BitVec.getLsbD_shiftLeft, BitVec.getLsbD_setWidth, BitVec.getLsbD_allOnes,
      Bool.eq_iff_iff]
    simp only [Bool.and_eq_true, Bool.not_eq_true', decide_eq_true_eq, decide_eq_false_iff_not]
    omega
  rw [hmerge, BitVec.getLsbD_or, BitVec.getLsbD_and, BitVec.getLsbD_and, BitVec.getLsbD_not, hmask]
  split
  next hin =>
    have hlt : i < 64 := by omega
    have hlow : ¬i < shift := by omega
    rw [decide_eq_true hin, BitVec.getLsbD_shiftLeft, decide_eq_true hlt, decide_eq_false hlow]
    simp
  next hout =>
    rw [decide_eq_false hout, Bool.not_false, Bool.and_true, Bool.and_false, Bool.or_false]
    by_cases hlt : i < 64
    · rw [decide_eq_true hlt, Bool.and_true]
    · rw [BitVec.getLsbD_of_ge old i (Nat.le_of_not_lt hlt), Bool.false_and]

/-- The low part of a register holds what was written to it. -/
theorem setWidth_mergePart (old value : BitVec 64) (w : Width) :
    (mergePart old value 0 w).setWidth w.bits = value.setWidth w.bits := by
  have hnarrow (hw : w = .byte ∨ w = .word) :
      (mergePart old value 0 w).setWidth w.bits = value.setWidth w.bits := by
    refine BitVec.eq_of_getLsbD_eq fun i hi ↦ ?_
    rw [BitVec.getLsbD_setWidth, BitVec.getLsbD_setWidth,
      getLsbD_mergePart old value 0 hw (by cases w <;> decide), if_pos (by omega), Nat.sub_zero]
  cases w with
  | byte => exact hnarrow (.inl rfl)
  | word => exact hnarrow (.inr rfl)
  | dword => simp [mergePart, Width.bits, Width.bytes]
  | qword => rfl

/-- Of two values written to the low part of a register the later one stays. -/
theorem mergePart_mergePart (old first second : BitVec 64) (w : Width) :
    mergePart (mergePart old first 0 w) second 0 w = mergePart old second 0 w := by
  have hnarrow (hw : w = .byte ∨ w = .word) :
      mergePart (mergePart old first 0 w) second 0 w = mergePart old second 0 w := by
    have hfit : 0 + w.bits ≤ 64 := by cases w <;> decide
    refine BitVec.eq_of_getLsbD_eq fun i _ ↦ ?_
    rw [getLsbD_mergePart _ second 0 hw hfit, getLsbD_mergePart _ second 0 hw hfit]
    split
    · rfl
    next hout => rw [getLsbD_mergePart old first 0 hw hfit, if_neg hout]
  cases w with
  | byte => exact hnarrow (.inl rfl)
  | word => exact hnarrow (.inr rfl)
  | dword => rfl
  | qword => rfl

/-- A general register can be read under each of its names. -/
theorem exists_read? (r : RegisterFile) {name : Register} (h : name.generalPart?.isSome) :
    ∃ value, r.read? name = some value := by
  obtain ⟨part, hpart⟩ := Option.isSome_iff_exists.mp h
  unfold read?
  rw [hpart]
  exact ⟨_, rfl⟩

/-- A general register can be written under each of its names. -/
theorem exists_write? (r : RegisterFile) {name : Register} (h : name.generalPart?.isSome)
    (value : BitVec 64) : ∃ after, r.write? name value = some after ∧ after.rflags = r.rflags := by
  obtain ⟨part, hpart⟩ := Option.isSome_iff_exists.mp h
  have hwrite : r.write? name value = some (r.set part.index
      (mergePart (r.get part.index) value part.shift part.width)) := by
    rw [write?, hpart]
    rfl
  exact ⟨_, hwrite, rfl⟩

end LongMode.RegisterFile
