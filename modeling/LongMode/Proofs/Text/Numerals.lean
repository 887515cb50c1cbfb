import LongMode.Text.Blank
import LongMode.Text.Numeral
import Mathlib.Data.List.TakeWhile
import Mathlib.Data.Nat.Digits.Defs

/-!
Numbers as they are written: white space, digits of a base and a plus sign.

* A text without the white space at its ends is a word just if the text is the word with white space
  around it (`trim_eq_iff`).
* Reading a number succeeds just on digits that denote a number below the limit
  (`number?_eq_some_iff`), so that the outcome is said by the number alone (`number?_of_denotes`).
-/

set_option autoImplicit false
set_option relaxedAutoImplicit false

namespace LongMode.Text

/-! ### White space -/

/-- A word with white space around it. -/
def Padded (word text : List Char) : Prop :=
  ∃ before after, (∀ c ∈ before, isBlank c = true) ∧ (∀ c ∈ after, isBlank c = true) ∧
    text = before ++ word ++ after

theorem padded_self (word : List Char) : Padded word word :=
  ⟨[], [], List.forall_mem_nil _, List.forall_mem_nil _, (List.append_nil word).symm⟩

/-- The white space at the start of a text, and the rest. -/
theorem exists_blanks_append_trimStart (text : List Char) :
    ∃ blanks, (∀ c ∈ blanks, isBlank c = true) ∧ text = blanks ++ trimStart text :=
  ⟨text.takeWhile isBlank, fun _ ↦ List.mem_takeWhile_imp, List.takeWhile_append_dropWhile.symm⟩

theorem padded_trim (text : List Char) : Padded (trim text) text := by
  obtain ⟨before, hbefore, htext⟩ := exists_blanks_append_trimStart text
  obtain ⟨after, hafter, hrest⟩ := exists_blanks_append_trimStart (trimStart text).reverse
  refine ⟨before, after.reverse, hbefore, fun c hc ↦ hafter c (List.mem_reverse.mp hc), ?_⟩
  rw [List.append_assoc, trim, ← List.reverse_append, ← hrest, List.reverse_reverse, ← htext]

/-- White space before a word that has none is left out. -/
theorem trimStart_append {blanks word : List Char} (hblanks : ∀ c ∈ blanks, isBlank c = true)
    (hword : ∀ c ∈ word, isBlank c = false) (hne : word ≠ []) (rest : List Char) :
    trimStart (blanks ++ word ++ rest) = word ++ rest := by
  obtain ⟨c, cs, rfl⟩ := List.exists_cons_of_ne_nil hne
  have hc := hword c List.mem_cons_self
  rw [trimStart, List.append_assoc, List.dropWhile_append_of_pos hblanks, List.cons_append,
    List.dropWhile_cons_of_neg (by simp [hc])]

theorem trim_eq_iff {word text : List Char} (hword : ∀ c ∈ word, isBlank c = false)
    (hne : word ≠ []) : trim text = word ↔ Padded word text := by
  constructor
  · rintro rfl
    exact padded_trim text
  · rintro ⟨before, after, hbefore, hafter, rfl⟩
    have hreverse : trimStart (after.reverse ++ word.reverse ++ []) = word.reverse ++ [] :=
      trimStart_append (fun c hc ↦ hafter c (List.mem_reverse.mp hc))
        (fun c hc ↦ hword c (List.mem_reverse.mp hc)) (mt List.reverse_eq_nil_iff.mp hne) []
    rw [List.append_nil, List.append_nil, ← List.reverse_append] at hreverse
    rw [trim, trimStart_append hbefore hword hne, hreverse, List.reverse_reverse]

/-! ### Digits -/

/-- Digits of a base, at least one, denote a number; the last of them are the ones. -/
def Denotes (base : Nat) (text : List Char) (n : Nat) : Prop :=
  ∃ values : List Nat, values ≠ [] ∧ text.map (digit? base) = values.map some ∧
    Nat.ofDigits base values.reverse = n

theorem isBlank_of_digit? {base d : Nat} {c : Char} (h : digit? base c = some d) :
    isBlank c = false := by
  obtain ⟨hvalue, -⟩ := Option.filter_eq_some_iff.mp h
  rw [digitValue?] at hvalue
  have hrange : 0x30 ≤ c.toNat ∧ c.toNat ≤ 0x7a := by
    simp only [Char.le_def, UInt32.le_iff_toNat_le] at hvalue
    split at hvalue
    next h => exact ⟨h.1, Nat.le_trans h.2 (by decide)⟩
    split at hvalue
    next h => exact ⟨Nat.le_trans (by decide) h.1, h.2⟩
    split at hvalue
    next h => exact ⟨Nat.le_trans (by decide) h.1, Nat.le_trans h.2 (by decide)⟩
    · cases hvalue
  simp only [isBlank, Bool.or_eq_false_iff, Bool.and_eq_false_iff, decide_eq_false_iff_not]
  omega

/-- What holds of the characters that are digits holds of all that a number is written with. -/
theorem Denotes.forall_mem {base n : Nat} {text : List Char} (h : Denotes base text n)
    {P : Char → Prop} (hP : ∀ c d, digit? base c = some d → P c) : ∀ c ∈ text, P c := by
  obtain ⟨values, -, hmap, -⟩ := h
  intro c hc
  have hmem := List.mem_map_of_mem (f := digit? base) hc
  rw [hmap] at hmem
  obtain ⟨d, -, hd⟩ := List.mem_map.mp hmem
  exact hP c d hd.symm

theorem Denotes.ne_nil {base n : Nat} {text : List Char} (h : Denotes base text n) : text ≠ [] := by
  obtain ⟨values, hne, hmap, -⟩ := h
  rintro rfl
  exact hne (List.map_eq_nil_iff.mp hmap.symm)

theorem mapM_eq_some_iff {α β : Type} {f : α → Option β} {xs : List α} {ys : List β} :
    xs.mapM f = some ys ↔ xs.map f = ys.map some := by
  induction xs generalizing ys with
  | nil =>
    cases ys with
    | nil => simp
    | cons y ys => simp
  | cons x xs ih =>
    rw [List.mapM_cons, List.map_cons]
    cases ys with
    | nil => simp [Option.bind_eq_some_iff]
    | cons y ys => simp [Option.bind_eq_some_iff, ih]

theorem digits?_eq_some_iff {base n : Nat} {text : List Char} (hne : text ≠ []) :
    digits? base text = some n ↔ Denotes base text n := by
  have hfold (values : List Nat) :
      values.foldl (fun n d ↦ n * base + d) 0 = Nat.ofDigits base values.reverse := by
    rw [Nat.ofDigits_eq_foldr, List.foldr_reverse]
    simp only [Nat.cast_id, Nat.mul_comm, Nat.add_comm]
  simp only [digits?, Option.map_eq_some_iff, mapM_eq_some_iff, hfold, Denotes]
  constructor
  · rintro ⟨values, hmap, hvalue⟩
    refine ⟨values, ?_, hmap, hvalue⟩
    rintro rfl
    exact hne (List.map_eq_nil_iff.mp hmap)
  · rintro ⟨values, -, hmap, hvalue⟩
    exact ⟨values, hmap, hvalue⟩

theorem number?_eq_some_iff {base limit n : Nat} {text : List Char} :
    number? base limit text = some n ↔ Denotes base (dropPlus text) n ∧ n < limit := by
  rw [number?]
  by_cases hempty : dropPlus text = []
  · rw [hempty]
    simp only [List.isEmpty_nil, if_true, reduceCtorEq, false_iff, not_and]
    exact fun h ↦ absurd rfl h.ne_nil
  · simp [hempty, Option.filter_eq_some_iff, digits?_eq_some_iff hempty]

/-- Digits are read as the number that they denote, unless it is too great. -/
theorem number?_of_denotes {base n : Nat} {text : List Char} (h : Denotes base (dropPlus text) n)
    (limit : Nat) : number? base limit text = if n < limit then some n else none := by
  have hne := h.ne_nil
  rw [number?, (digits?_eq_some_iff hne).mpr h]
  simp [hne, Option.filter_some]

end LongMode.Text
