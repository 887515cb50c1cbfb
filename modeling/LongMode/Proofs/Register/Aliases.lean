import LongMode.Proofs.Register.File

/-!
Names of general registers overlap. `Register.bit?` says which bit of which general register bit `k`
of a name is; two names overlap in the bits that they share. After a write to one name, reading
another one finds the written bits where the two overlap, zeros in the half that a 32-bit name
clears, and the old bits elsewhere (`RegisterFile.overlap_after_write`).

There are two ways to write the low part of a register, by its name and by its number and a width;
they are equal (`RegisterFile.write?_general`).
-/

set_option autoImplicit false
set_option relaxedAutoImplicit false

namespace LongMode

namespace Register

/-- The bit of a general register that is bit `k` of a name: the register and the position in it. -/
def bit? : Register → Nat → Option (Fin 16 × Nat)
  | .general width index, k => if k < width.bits then some (index, k) else none
  | .highByte index, k => if k < 8 then some (index.castAdd 12, k + 8) else none
  | _, _ => none

/-- A write to a 32-bit name clears the upper half of the register. -/
def Clears (name : Register) (bit : Fin 16 × Nat) : Prop :=
  name = .general .dword bit.1 ∧ 32 ≤ bit.2

variable {name : Register} {part : GeneralPart}

/-- The bits of a name are those of the part that it stands for. -/
theorem bit?_eq (h : name.generalPart? = some part) (k : Nat) : name.bit? k =
    if k < part.width.bits then some (part.index, k + part.shift) else none := by
  cases name with
  | general w i =>
    obtain rfl := Option.some.inj h
    rfl
  | highByte i =>
    obtain rfl := Option.some.inj h
    rfl
  | _ => cases h

theorem clears_iff (h : name.generalPart? = some part) {bit : Fin 16 × Nat} :
    name.Clears bit ↔ part.width = .dword ∧ part.index = bit.1 ∧ 32 ≤ bit.2 := by
  cases name with
  | general w i =>
    obtain rfl := Option.some.inj h
    simp only [Clears, general.injEq, and_assoc]
  | highByte i =>
    obtain rfl := Option.some.inj h
    simp [Clears]
  | _ => cases h

/-- A part lies within a register, and unless it is a byte it begins at the lowest bit. -/
theorem part_fits (h : name.generalPart? = some part) :
    part.shift + part.width.bits ≤ 64 ∧ (part.width ≠ .byte → part.shift = 0) := by
  cases name with
  | general w i =>
    obtain rfl := Option.some.inj h
    have hbits : 0 + w.bits ≤ 64 := by cases w <;> decide
    exact ⟨hbits, fun _ ↦ rfl⟩
  | highByte i =>
    obtain rfl := Option.some.inj h
    have hbits : 8 + Width.byte.bits ≤ 64 := by decide
    exact ⟨hbits, fun hbyte ↦ absurd rfl hbyte⟩
  | _ => cases h

end Register

namespace RegisterFile

open Register

variable {name : Register} {part : GeneralPart}

/-- Writing the low part of a register is writing its name. -/
theorem write?_general (r : RegisterFile) (index : Fin 16) (width : Width) (value : BitVec 64) :
    r.write? (.general width index) value = some (r.setLow index width value) := by
  rw [setLow_eq]
  rfl

/-! ### Single bits -/

/-- A part of a word, taken for a word: its bits, and zeros above them. -/
theorem getLsbD_part (x : BitVec 64) (shift : Nat) {width : Nat} (hwidth : width ≤ 64) (k : Nat) :
    (((x >>> shift).setWidth width).setWidth 64).getLsbD k =
      (decide (k < width) && x.getLsbD (k + shift)) := by
  rw [BitVec.getLsbD_setWidth, BitVec.getLsbD_setWidth, BitVec.getLsbD_ushiftRight,
    Nat.add_comm shift k]
  by_cases hk : k < width
  · rw [decide_eq_true (Nat.lt_of_lt_of_le hk hwidth), Bool.true_and]
  · rw [decide_eq_false hk, Bool.false_and, Bool.and_false]

/-- A word after a part of it was written: the written bits, and beside them the old ones, or zeros
if 32 bits were written. -/
theorem getLsbD_mergePart_part (h : name.generalPart? = some part) (old value : BitVec 64)
    (n : Nat) : (mergePart old value part.shift part.width).getLsbD n =
      if part.shift ≤ n ∧ n < part.shift + part.width.bits then value.getLsbD (n - part.shift)
      else if part.width = .dword ∧ 32 ≤ n then false else old.getLsbD n := by
  obtain ⟨hfit, hshift⟩ := part_fits h
  obtain ⟨index, shift, w⟩ := part
  dsimp only at hfit hshift ⊢
  have hnarrow (hw : w = .byte ∨ w = .word) : (mergePart old value shift w).getLsbD n =
      if shift ≤ n ∧ n < shift + w.bits then value.getLsbD (n - shift)
      else if w = .dword ∧ 32 ≤ n then false else old.getLsbD n := by
    have hdword : ¬(w = .dword ∧ 32 ≤ n) := by
      rintro ⟨rfl, -⟩
      simp at hw
    rw [getLsbD_mergePart old value shift hw hfit, if_neg hdword]
  cases w with
  | byte => exact hnarrow (.inl rfl)
  | word => exact hnarrow (.inr rfl)
  | dword =>
    obtain rfl : shift = 0 := hshift (by decide)
    have hbits : Width.dword.bits = 32 := rfl
    rw [mergePart, BitVec.getLsbD_setWidth, BitVec.getLsbD_setWidth, hbits, Nat.sub_zero]
    by_cases hlow : n < 32
    · rw [if_pos (by omega), decide_eq_true hlow, decide_eq_true (by omega), Bool.true_and,
        Bool.true_and]
    · rw [if_neg (by omega), if_pos ⟨rfl, Nat.le_of_not_lt hlow⟩, decide_eq_false hlow,
        Bool.false_and, Bool.and_false]
  | qword =>
    obtain rfl : shift = 0 := hshift (by decide)
    have hbits : Width.qword.bits = 64 := rfl
    rw [mergePart, hbits, Nat.sub_zero]
    by_cases hlow : n < 64
    · rw [if_pos (by omega)]
    · have hhigh : 64 ≤ n := Nat.le_of_not_lt hlow
      rw [if_neg (by omega), if_neg (fun h ↦ absurd h.1 (by decide)), BitVec.getLsbD_of_ge value n hhigh,
        BitVec.getLsbD_of_ge old n hhigh]

/-- Bit by bit, what is read under a name of a general register. -/
theorem exists_read?_bits (r : RegisterFile) (h : name.generalPart?.isSome) :
    ∃ value, r.read? name = some value ∧
      (∀ k bit, name.bit? k = some bit → value.getLsbD k = (r.get bit.1).getLsbD bit.2) ∧
      ∀ k, name.bit? k = none → value.getLsbD k = false := by
  obtain ⟨part, hpart⟩ := Option.isSome_iff_exists.mp h
  have hread : r.read? name = some
      (((r.get part.index >>> part.shift).setWidth part.width.bits).setWidth 64) := by
    simp only [read?, hpart]
  have hwidth : part.width.bits ≤ 64 := Nat.le_trans (Nat.le_add_left ..) (part_fits hpart).1
  refine ⟨_, hread, fun k bit hbit ↦ ?_, fun k hbit ↦ ?_⟩
  · rw [bit?_eq hpart, Option.ite_none_right_eq_some, Option.some.injEq] at hbit
    obtain ⟨hk, rfl⟩ := hbit
    rw [getLsbD_part _ _ hwidth, decide_eq_true hk, Bool.true_and]
  · rw [bit?_eq hpart, ite_eq_right_iff] at hbit
    have hk : ¬k < part.width.bits := fun hk ↦ nomatch hbit hk
    rw [getLsbD_part _ _ hwidth, decide_eq_false hk, Bool.false_and]

/-- Bit by bit, what a write to a name leaves in the general registers. -/
theorem exists_write?_bits (r : RegisterFile) (h : name.generalPart?.isSome) (value : BitVec 64) :
    ∃ after, r.write? name value = some after ∧ { after with general := r.general } = r ∧
      ∀ bit : Fin 16 × Nat,
        (∀ j, name.bit? j = some bit → (after.get bit.1).getLsbD bit.2 = value.getLsbD j) ∧
        (name.Clears bit → (after.get bit.1).getLsbD bit.2 = false) ∧
        ((∀ j, name.bit? j ≠ some bit) → ¬name.Clears bit →
          (after.get bit.1).getLsbD bit.2 = (r.get bit.1).getLsbD bit.2) := by
  obtain ⟨part, hpart⟩ := Option.isSome_iff_exists.mp h
  have hwrite : r.write? name value = some (r.set part.index
      (mergePart (r.get part.index) value part.shift part.width)) := by
    rw [write?, hpart]
    rfl
  refine ⟨_, hwrite, rfl, fun bit ↦ ⟨fun j hbit ↦ ?_, fun hclears ↦ ?_, fun hbit hclears ↦ ?_⟩⟩
  · rw [bit?_eq hpart, Option.ite_none_right_eq_some, Option.some.injEq] at hbit
    obtain ⟨hj, rfl⟩ := hbit
    rw [get_set, if_pos rfl, getLsbD_mergePart_part hpart, if_pos (by dsimp only; omega),
      Nat.add_sub_cancel]
  · obtain ⟨hwidth, hindex, hhigh⟩ := (clears_iff hpart).mp hclears
    have hshift : part.shift = 0 := (part_fits hpart).2 (by rw [hwidth]; decide)
    have hbits : part.shift + part.width.bits = 32 := by rw [hshift, hwidth]; rfl
    rw [get_set, if_pos hindex, getLsbD_mergePart_part hpart, if_neg (by omega),
      if_pos ⟨hwidth, hhigh⟩]
  · rw [get_set]
    split
    next hindex =>
      rw [getLsbD_mergePart_part hpart, if_neg, if_neg, hindex]
      · rintro ⟨hwidth, hhigh⟩
        exact hclears ((clears_iff hpart).mpr ⟨hwidth, hindex, hhigh⟩)
      · rintro ⟨hlow, hlt⟩
        refine hbit (bit.2 - part.shift) ?_
        rw [bit?_eq hpart, if_pos (by omega), Nat.sub_add_cancel hlow, hindex]
    next => rfl

/-! ### Overlapping names -/

/-- Reading a name after a write to another one: the bits in which the two overlap are those that
were written, the half that a 32-bit name clears reads as zeros, and every other bit is as it was;
above its width a name reads as zeros. Nothing but general registers changes. And a part written by
the number of the register and a width is written as by the name that stands for it. -/
theorem overlap_after_write (r : RegisterFile) (target name : Register)
    (htarget : target.generalPart?.isSome) (hname : name.generalPart?.isSome) (value : BitVec 64) :
    ∃ after old new, r.write? target value = some after ∧ r.read? name = some old ∧
      after.read? name = some new ∧
      (∀ k bit, name.bit? k = some bit →
        (∀ j, target.bit? j = some bit → new.getLsbD k = value.getLsbD j) ∧
        (target.Clears bit → new.getLsbD k = false) ∧
        ((∀ j, target.bit? j ≠ some bit) → ¬target.Clears bit →
          new.getLsbD k = old.getLsbD k)) ∧
      (∀ k, name.bit? k = none → new.getLsbD k = false) ∧
      { after with general := r.general } = r ∧
      ∀ index width,
        r.write? (.general width index) value = some (r.setLow index width value) := by
  obtain ⟨after, hwrite, hrest, hafter⟩ := exists_write?_bits r htarget value
  obtain ⟨old, hold, holdbits, -⟩ := exists_read?_bits r hname
  obtain ⟨new, hnew, hnewbits, hnewzeros⟩ := exists_read?_bits after hname
  refine ⟨after, old, new, hwrite, hold, hnew, fun k bit hbit ↦ ?_, hnewzeros, hrest,
    fun index width ↦ write?_general r index width value⟩
  obtain ⟨hwritten, hcleared, hkept⟩ := hafter bit
  rw [hnewbits k bit hbit, holdbits k bit hbit]
  exact ⟨hwritten, hcleared, hkept⟩

/-- AH is written, and EAX is read: bits 8 to 15 are new, the others are old. -/
theorem overlap_after_write_secondByte :
    let r := RegisterFile.set {} Register.rax 0x1122334455667788
    (Register.highByte 0).generalPart?.isSome ∧ (Register.general .dword 0).generalPart?.isSome ∧
      ∃ after new, r.write? (.highByte 0) 0xaa = some after ∧
        after.read? (.general .dword 0) = some new ∧ new.getLsbD 15 = true ∧
        new.getLsbD 8 = false ∧ new.getLsbD 3 = true ∧ new.getLsbD 32 = false := by
  intro r
  obtain ⟨after, old, new, hwrite, hold, hnew, hbits, hzeros, -, -⟩ :=
    overlap_after_write r (.highByte 0) (.general .dword 0) (by decide) (by decide) 0xaa
  obtain rfl : 0x55667788 = old := Option.some.inj (.trans (by decide +kernel) hold)
  refine ⟨by decide, by decide, after, new, hwrite, hnew, ?_, ?_, ?_, hzeros 32 rfl⟩
  · exact (hbits 15 (0, 15) rfl).1 7 rfl
  · exact (hbits 8 (0, 8) rfl).1 0 rfl
  · refine (hbits 3 (0, 3) rfl).2.2 (fun j hj ↦ ?_) (fun hclears ↦ nomatch hclears.1)
    obtain ⟨-, hj⟩ := Option.ite_none_right_eq_some.mp hj
    exact absurd (Prod.mk.inj (Option.some.inj hj)).2 (by omega)

end RegisterFile

end LongMode
