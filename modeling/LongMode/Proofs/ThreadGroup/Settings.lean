import LongMode.ThreadGroup.Settings
import LongMode.Proofs.Text.Numerals
import Mathlib.Data.List.Nodup
import Mathlib.Logic.Function.Basic

/-!
What settings depend on. A number can be written in many ways (`Variable.Spells`), and it is the
number that counts: another spelling in the same environment gives the same settings, or the same
error (`Settings.ofEnvironment_respelled`). There is one exception. A threshold of zero is taken for
no threshold in its shortest spelling only (`Variable.Misreads`).

A change of one setting commutes with reading all other variables (`Settings.ofEnvironment_update`),
so that only the value that is spelled anew has to be looked at.
-/

set_option autoImplicit false
set_option relaxedAutoImplicit false

namespace LongMode

open Text

/-! ### Spellings -/

namespace Variable

theorem name_injective : Function.Injective name := by
  intro v w h
  cases v <;> cases w <;> first | rfl | exact absurd h (by decide)

/-- The words that denote a number for a variable: decimal digits and, unless it is the threshold,
hexadecimal ones behind a mark; either behind at most one plus sign. -/
inductive Denotes (v : Variable) : List Char → Nat → Prop
  | decimal {word : List Char} {n : Nat} (h : Text.Denotes 10 (dropPlus word) n) : Denotes v word n
  | hexadecimal {digits : List Char} {n : Nat} (hv : v ≠ hotThreshold)
    (h : Text.Denotes 16 (dropPlus digits) n) : Denotes v ('0' :: 'x' :: digits) n

/-- The values of a variable that denote a number: a word that does, with white space around it. -/
def Spells (v : Variable) (value : String) (n : Nat) : Prop :=
  ∃ word, Padded word value.toList ∧ v.Denotes word n

/-- The numbers that a variable may denote. -/
def Admits : Variable → Nat → Prop
  | batchSize, n | stackSize, n => 0 < n ∧ n < addressLimit
  | decodeCache, n => n < addressLimit
  | hotThreshold, n => n < 0x100000000
  | faultPolicy, _ => False

/-- The value is a threshold of zero, in a spelling that is not taken for no threshold. -/
def Misreads (v : Variable) (value : String) (n : Nat) : Prop :=
  v = hotThreshold ∧ n = 0 ∧ ¬Padded ['0'] value.toList

variable {v : Variable} {value : String} {word : List Char} {n : Nat}

/-- A mark is not the beginning of a decimal number. -/
theorem not_denotes_marked (digits : List Char) (n : Nat) :
    ¬Text.Denotes 10 ('0' :: 'x' :: digits) n := by
  intro h
  have hdigit := h.forall_mem (P := fun c ↦ (digit? 10 c).isSome)
    (fun c d hd ↦ Option.isSome_iff_exists.mpr ⟨d, hd⟩) 'x'
    (List.mem_cons_of_mem _ List.mem_cons_self)
  exact absurd hdigit (by decide)

theorem forall_mem_of_dropPlus {P : Char → Prop} (hplus : P '+')
    (h : ∀ c ∈ dropPlus word, P c) : ∀ c ∈ word, P c := by
  rw [dropPlus.eq_def] at h
  split at h
  · exact List.forall_mem_cons.mpr ⟨hplus, h⟩
  · exact h

theorem Denotes.isBlank_eq_false (h : v.Denotes word n) : ∀ c ∈ word, isBlank c = false := by
  have hdigits {base : Nat} {digits : List Char} (h : Text.Denotes base (dropPlus digits) n) :
      ∀ c ∈ digits, isBlank c = false :=
    forall_mem_of_dropPlus rfl (h.forall_mem fun _ _ ↦ isBlank_of_digit?)
  cases h with
  | decimal h => exact hdigits h
  | hexadecimal _ h =>
    exact List.forall_mem_cons.mpr ⟨rfl, List.forall_mem_cons.mpr ⟨rfl, hdigits h⟩⟩

theorem Denotes.ne_nil (h : v.Denotes word n) : word ≠ [] := by
  cases h with
  | decimal h =>
    rintro rfl
    exact h.ne_nil rfl
  | hexadecimal => exact List.cons_ne_nil _ _

theorem Denotes.trim_eq (h : v.Denotes word n) (hpadded : Padded word value.toList) :
    trim value.toList = word :=
  (trim_eq_iff h.isBlank_eq_false h.ne_nil).mpr hpadded

/-- A count is read as the number that is written, unless it is too great. -/
theorem Spells.count?_eq (h : v.Spells value n) :
    count? value.toList = if n < addressLimit then some n else none := by
  obtain ⟨word, hpadded, hword⟩ := h
  rw [count?, hword.trim_eq hpadded]
  cases hword with
  | decimal h =>
    split
    next digits => exact absurd h (not_denotes_marked digits n)
    next => exact number?_of_denotes h addressLimit
  | hexadecimal _ h => exact number?_of_denotes h addressLimit

theorem Spells.positiveCount?_eq (h : v.Spells value n) :
    positiveCount? value.toList = if 0 < n ∧ n < addressLimit then some n else none := by
  rw [positiveCount?, h.count?_eq]
  by_cases hlt : n < addressLimit
  · simp [hlt, Option.filter_some]
  · simp [hlt]

/-- Decimal digits that are not the word for no threshold are read as the number that is written,
unless it is too great; but `0` is no threshold. -/
theorem Spells.threshold?_eq (h : hotThreshold.Spells value n) :
    threshold? value.toList =
      if trim value.toList = ['0'] then some none
      else if n < 0x100000000 then some (some n) else none := by
  obtain ⟨word, hpadded, hword⟩ := h
  have htrim := hword.trim_eq hpadded
  rw [threshold?, htrim]
  cases hword with
  | hexadecimal hv => exact absurd rfl hv
  | decimal h =>
    have hoff : word ≠ ['o', 'f', 'f'] := by
      rintro rfl
      have hdigit := h.forall_mem (P := fun c ↦ (digit? 10 c).isSome)
        (fun c d hd ↦ Option.isSome_iff_exists.mpr ⟨d, hd⟩) 'o' List.mem_cons_self
      exact absurd hdigit (by decide)
    simp only [hoff, false_or, number?_of_denotes h]
    split
    · rfl
    split <;> rfl

/-- The shortest spelling of zero denotes nothing else. -/
theorem Spells.eq_zero (h : v.Spells value n) (htrim : trim value.toList = ['0']) : n = 0 := by
  obtain ⟨word, hpadded, hword⟩ := h
  rw [hword.trim_eq hpadded] at htrim
  subst htrim
  cases hword with
  | decimal h =>
    obtain ⟨values, -, hmap, rfl⟩ := h
    obtain ⟨d, rfl⟩ : ∃ d, values = [d] :=
      List.length_eq_one_iff.mp (by simpa [dropPlus] using (congrArg List.length hmap).symm)
    have hd : digit? 10 '0' = some d := List.head_eq_of_cons_eq hmap
    obtain rfl : 0 = d := Option.some.inj hd
    rfl

theorem misreads_iff :
    v.Misreads value n ↔ v = hotThreshold ∧ n = 0 ∧ ¬trim value.toList = ['0'] := by
  rw [Misreads, trim_eq_iff (by simp [isBlank]) (by decide)]

instance : Decidable (v.Misreads value n) :=
  decidable_of_iff _ misreads_iff.symm

theorem Spells.threshold?_of_misreads (h : hotThreshold.Spells value n)
    (hmisread : hotThreshold.Misreads value n) : threshold? value.toList = some (some 0) := by
  obtain ⟨-, rfl, hzero⟩ := misreads_iff.mp hmisread
  rw [h.threshold?_eq, if_neg hzero]
  rfl

/-- A threshold that is not misread is what is written, and none if that is zero. -/
theorem Spells.threshold?_of_not_misreads (h : hotThreshold.Spells value n)
    (hread : ¬hotThreshold.Misreads value n) : threshold? value.toList =
      if n = 0 then some none else if n < 0x100000000 then some (some n) else none := by
  rw [h.threshold?_eq]
  by_cases hzero : trim value.toList = ['0']
  · rw [if_pos hzero, if_pos (h.eq_zero hzero)]
  · rw [if_neg hzero, if_neg fun hn ↦ hread (misreads_iff.mpr ⟨rfl, hn, hzero⟩)]

/-- What is read as a count is a spelling of it. -/
theorem spells_of_count? (hv : v ≠ hotThreshold) (h : count? value.toList = some n) :
    v.Spells value n ∧ n < addressLimit := by
  rw [count?] at h
  split at h
  next digits hdigits =>
    obtain ⟨hdenotes, hlt⟩ := number?_eq_some_iff.mp h
    exact ⟨⟨_, hdigits ▸ padded_trim value.toList, .hexadecimal hv hdenotes⟩, hlt⟩
  next =>
    obtain ⟨hdenotes, hlt⟩ := number?_eq_some_iff.mp h
    exact ⟨⟨_, padded_trim value.toList, .decimal hdenotes⟩, hlt⟩

theorem spells_of_positiveCount? (hv : v ≠ hotThreshold)
    (h : positiveCount? value.toList = some n) :
    v.Spells value n ∧ 0 < n ∧ n < addressLimit := by
  obtain ⟨hcount, hpos⟩ := Option.filter_eq_some_iff.mp h
  obtain ⟨hspells, hlt⟩ := spells_of_count? hv hcount
  exact ⟨hspells, of_decide_eq_true hpos, hlt⟩

/-- What is read as a threshold is the word for none, or a spelling of a number. -/
theorem off_or_spells_of_threshold? {t : Option Nat} (h : threshold? value.toList = some t) :
    Padded ['o', 'f', 'f'] value.toList ∨
      ∃ n, hotThreshold.Spells value n ∧ n < 0x100000000 := by
  have hpadded := padded_trim value.toList
  simp only [threshold?] at h
  split at h
  next hword =>
    rcases hword with hoff | hzero
    · exact .inl (hoff ▸ hpadded)
    · exact .inr ⟨0, ⟨_, hzero ▸ hpadded, .decimal ⟨[0], by decide, by decide, rfl⟩⟩, by decide⟩
  next =>
    obtain ⟨n, hn, -⟩ := Option.map_eq_some_iff.mp h
    obtain ⟨hdenotes, hlt⟩ := number?_eq_some_iff.mp hn
    exact .inr ⟨n, ⟨_, hpadded, .decimal hdenotes⟩, hlt⟩

end Variable

/-! ### Settings -/

namespace Settings

open Variable

variable {v : Variable} {value value' : String} {n : Nat} {s : Settings}

/-- The settings with another threshold. -/
def withThreshold (t : Option Nat) (s : Settings) : Settings :=
  { s with core.hotThreshold := t }

/-- A value that is accepted spells a number that the variable may denote, or is the word for no
threshold. -/
theorem off_or_spells_of_set? {t : Settings} (hv : v ≠ .faultPolicy)
    (h : s.set? v value.toList = some t) :
    v = .hotThreshold ∧ Padded ['o', 'f', 'f'] value.toList ∨
      ∃ n, v.Spells value n ∧ v.Admits n := by
  cases v with
  | batchSize =>
    obtain ⟨n, hn, -⟩ := Option.map_eq_some_iff.mp h
    exact .inr ⟨n, spells_of_positiveCount? (by decide) hn⟩
  | hotThreshold =>
    obtain ⟨threshold, hthreshold, -⟩ := Option.map_eq_some_iff.mp h
    exact (off_or_spells_of_threshold? hthreshold).imp_left fun h ↦ ⟨rfl, h⟩
  | decodeCache =>
    obtain ⟨n, hn, -⟩ := Option.map_eq_some_iff.mp h
    exact .inr ⟨n, spells_of_count? (by decide) hn⟩
  | stackSize =>
    obtain ⟨n, hn, -⟩ := Option.map_eq_some_iff.mp h
    exact .inr ⟨n, spells_of_positiveCount? (by decide) hn⟩
  | faultPolicy => exact absurd rfl hv

/-- A number that the variable may denote is accepted in every spelling. -/
theorem isSome_set?_of_spells (h : v.Spells value n) (hn : v.Admits n) (s : Settings) :
    (s.set? v value.toList).isSome := by
  cases v with
  | batchSize => simpa [set?, h.positiveCount?_eq, Admits] using hn
  | hotThreshold =>
    have hlt : n < 0x100000000 := hn
    simp only [set?, h.threshold?_eq, if_pos hlt]
    split <;> rfl
  | decodeCache => simpa [set?, h.count?_eq, Admits] using hn
  | stackSize => simpa [set?, h.positiveCount?_eq, Admits] using hn
  | faultPolicy => exact hn.elim

theorem isSome_set?_of_off (h : Padded ['o', 'f', 'f'] value.toList) (s : Settings) :
    (s.set? .hotThreshold value.toList).isSome := by
  have htrim := (trim_eq_iff (by simp [isBlank]) (by decide)).mpr h
  simp [set?, threshold?, htrim]

/-! ### Another spelling -/

/-- Two spellings of a number are read alike, unless one of them is misread. -/
theorem set?_eq_of_spells (hv : v ≠ .faultPolicy) (h : v.Spells value n) (h' : v.Spells value' n)
    (hread : v.Misreads value n ↔ v.Misreads value' n) (s : Settings) :
    s.set? v value'.toList = s.set? v value.toList := by
  cases v with
  | batchSize => simp only [set?, h.positiveCount?_eq, h'.positiveCount?_eq]
  | hotThreshold =>
    by_cases hmisread : hotThreshold.Misreads value n
    · rw [set?, set?, h.threshold?_of_misreads hmisread,
        h'.threshold?_of_misreads (hread.mp hmisread)]
    · rw [set?, set?, h.threshold?_of_not_misreads hmisread,
        h'.threshold?_of_not_misreads (mt hread.mpr hmisread)]
  | decodeCache => simp only [set?, h.count?_eq, h'.count?_eq]
  | stackSize => simp only [set?, h.positiveCount?_eq, h'.positiveCount?_eq]
  | faultPolicy => exact absurd rfl hv

/-- A threshold of zero is no threshold, or zero where it is misread. -/
theorem set?_hotThreshold_zero (h : hotThreshold.Spells value 0) (s : Settings) :
    s.set? .hotThreshold value.toList = some
      (s.withThreshold (if hotThreshold.Misreads value 0 then some 0 else none)) := by
  split
  next hmisread =>
    rw [set?, h.threshold?_of_misreads hmisread]
    rfl
  next hread =>
    rw [set?, h.threshold?_of_not_misreads hread]
    rfl

/-- Other variables are read alike, whatever the threshold is. -/
theorem set?_withThreshold (hv : v ≠ .hotThreshold) (t : Option Nat) (text : List Char)
    (s : Settings) :
    (s.withThreshold t).set? v text = (s.set? v text).map (withThreshold t) := by
  cases v with
  | hotThreshold => exact absurd rfl hv
  | _ => simp [set?, withThreshold, Function.comp_def]

section Update

variable {environment : String → Option String} {f : Settings → Settings}

/-- A change of the result of two steps can be made after the second one. -/
theorem map_bind {ε α β γ : Type} (x : Except ε α) (g : α → Except ε β) (h : β → γ) :
    (x >>= g).map h = x >>= fun a ↦ (g a).map h := by
  cases x <;> rfl

/-- Variables with other names are read as before. -/
theorem foldlM_apply_update {rest : List Variable} (h : v ∉ rest) (s : Settings) :
    rest.foldlM (apply (Function.update environment v.name (some value'))) s =
      rest.foldlM (apply environment) s := by
  induction rest generalizing s with
  | nil => rfl
  | cons w rest ih =>
    have hw : w ≠ v := (List.ne_of_not_mem_cons h).symm
    have happly : apply (Function.update environment v.name (some value')) s w =
        apply environment s w := by
      rw [apply, apply, Function.update_of_ne (name_injective.ne hw)]
    rw [List.foldlM_cons, List.foldlM_cons, happly]
    exact bind_congr fun s ↦ ih (List.not_mem_of_not_mem_cons h) s

/-- A change of settings that commutes with reading each of some variables commutes with reading
them one after the other. -/
theorem foldlM_apply_map {rest : List Variable}
    (hf : ∀ w ∈ rest, ∀ text s, set? (f s) w text = (set? s w text).map f) (s : Settings) :
    rest.foldlM (apply environment) (f s) = (rest.foldlM (apply environment) s).map f := by
  induction rest generalizing s with
  | nil => rfl
  | cons w rest ih =>
    obtain ⟨hw, hrest⟩ := List.forall_mem_cons.mp hf
    have happly : apply environment (f s) w = (apply environment s w).map f := by
      rw [apply, apply]
      cases environment w.name with
      | none => rfl
      | some value =>
        dsimp only
        rw [hw]
        cases s.set? w value.toList <;> rfl
    rw [List.foldlM_cons, List.foldlM_cons, happly, map_bind]
    cases apply environment s w with
    | error e => rfl
    | ok s => exact ih hrest s

/-- If a new value of a variable is read as the old one up to a change of settings that commutes
with reading the other variables, then it changes the settings in this way. -/
theorem ofEnvironment_update (hvalue : environment v.name = some value)
    (hnew : ∀ s : Settings, s.set? v value'.toList = (s.set? v value.toList).map f)
    (hf : ∀ w ≠ v, ∀ text, ∀ s : Settings, (f s).set? w text = (s.set? w text).map f) :
    ofEnvironment (Function.update environment v.name (some value')) =
      (ofEnvironment environment).map f := by
  obtain ⟨before, after, hall, hbefore, hafter⟩ :
      ∃ before after, Variable.all = before ++ v :: after ∧ v ∉ before ∧ v ∉ after := by
    have hmem : v ∈ Variable.all := by cases v <;> decide
    obtain ⟨before, after, hall⟩ := List.append_of_mem hmem
    have hnodup : Variable.all.Nodup := by decide
    rw [hall, List.nodup_middle, List.nodup_cons, List.mem_append, not_or] at hnodup
    exact ⟨before, after, hall, hnodup.1⟩
  have happly (s : Settings) :
      apply (Function.update environment v.name (some value')) s v =
        (apply environment s v).map f := by
    rw [apply, apply, Function.update_self, hvalue]
    dsimp only
    rw [hnew]
    cases s.set? v value.toList <;> rfl
  rw [ofEnvironment, ofEnvironment, hall, List.foldlM_append, List.foldlM_append,
    foldlM_apply_update hbefore, map_bind]
  refine bind_congr fun s ↦ ?_
  rw [List.foldlM_cons, List.foldlM_cons, happly, map_bind]
  cases apply environment s v with
  | error e => rfl
  | ok s =>
    have hrest : after.foldlM (apply environment) (f s) =
        (after.foldlM (apply environment) s).map f :=
      foldlM_apply_map (fun w hw ↦ hf w fun hsame ↦ hafter (hsame ▸ hw)) s
    exact (foldlM_apply_update hafter (f s)).trans hrest

end Update

/-- Settings depend on the numbers that values of variables denote, and not on how they are
written. Let a variable be set to a spelling of a number, and take any other spelling of it instead:
decimal or, but for the threshold, hexadecimal digits of either case, any number of leading zeros, a
plus sign, white space. The settings are the same, or the same error names the same variable, with
one exception: a threshold of zero is no threshold if it is spelled `0`, with white space or
without, and the threshold zero otherwise. Every spelling of a number that the variable may denote
is accepted, and besides these only the word for no threshold is. -/
theorem ofEnvironment_respelled (environment : String → Option String) (v : Variable)
    (hv : v ≠ .faultPolicy) (value value' : String) (n : Nat)
    (hset : environment v.name = some value) (h : v.Spells value n) (h' : v.Spells value' n) :
    let settings := ofEnvironment environment
    let settings' := ofEnvironment (Function.update environment v.name (some value'))
    ((v.Misreads value n ↔ v.Misreads value' n) → settings' = settings) ∧
    (v = .hotThreshold → n = 0 →
      settings' = settings.map (withThreshold (if v.Misreads value' n then some 0 else none))) ∧
    (∀ text, (set? {} v (String.toList text)).isSome ↔
      v = .hotThreshold ∧ Padded ['o', 'f', 'f'] text.toList ∨
        ∃ m, v.Spells text m ∧ v.Admits m) := by
  intro settings settings'
  refine ⟨fun hread ↦ ?_, fun hthreshold hzero ↦ ?_, fun text ↦ ⟨fun haccepted ↦ ?_, ?_⟩⟩
  · have hsame : settings' = settings.map id := by
      refine ofEnvironment_update hset (fun s ↦ ?_) fun w _ text s ↦ ?_
      · rw [Option.map_id, id, set?_eq_of_spells hv h h' hread]
      · rw [Option.map_id, id, id]
    rw [hsame]
    cases settings <;> rfl
  · subst hthreshold hzero
    refine ofEnvironment_update hset (fun s ↦ ?_) fun w hw text s ↦ set?_withThreshold hw _ text s
    rw [set?_hotThreshold_zero h', set?_hotThreshold_zero h]
    rfl
  · obtain ⟨s, hs⟩ := Option.isSome_iff_exists.mp haccepted
    exact off_or_spells_of_set? hv hs
  · rintro (⟨rfl, hoff⟩ | ⟨m, hspells, hadmits⟩)
    · exact isSome_set?_of_off hoff {}
    · exact isSome_set?_of_spells hspells hadmits {}

/-- A size in hexadecimal, and the same in decimal with a sign, zeros and white space. -/
theorem ofEnvironment_respelled_cache :
    let environment (name : String) := if name = "XEMU_DECODE_CACHE" then some "0x1F" else none
    decodeCache.Spells "0x1F" 31 ∧ decodeCache.Spells " +0031\n" 31 ∧
      ofEnvironment (Function.update environment "XEMU_DECODE_CACHE" (some " +0031\n")) =
        ofEnvironment environment := by
  intro environment
  have h : decodeCache.Spells "0x1F" 31 :=
    ⟨"0x1F".toList, padded_self _,
      .hexadecimal (by decide) ⟨[1, 15], by decide, by decide, by decide⟩⟩
  have h' : decodeCache.Spells " +0031\n" 31 :=
    ⟨"+0031".toList, ⟨[' '], ['\n'], by simp [isBlank], by simp [isBlank], by decide⟩,
      .decimal ⟨[0, 0, 3, 1], by decide, by decide, by decide⟩⟩
  exact ⟨h, h', (ofEnvironment_respelled environment .decodeCache (by decide) _ _ 31 rfl h h').1
    (by decide)⟩

/-- Two spellings of zero, of which one is no threshold and the other is the threshold zero. -/
theorem ofEnvironment_zeros_differ :
    let environment (name : String) := if name = "XEMU_HOT_THRESHOLD" then some "0" else none
    hotThreshold.Spells "0" 0 ∧ hotThreshold.Spells "00" 0 ∧
      ofEnvironment environment = .ok {} ∧
      ofEnvironment (Function.update environment "XEMU_HOT_THRESHOLD" (some "00")) =
        .ok (withThreshold (some 0) {}) := by
  intro environment
  refine ⟨⟨['0'], padded_self _,
      .decimal ⟨[0], by decide, by decide, by decide⟩⟩,
    ⟨['0', '0'], padded_self _,
      .decimal ⟨[0, 0], by decide, by decide, by decide⟩⟩, ?_, ?_⟩
  · rfl
  · rfl

end Settings

end LongMode
