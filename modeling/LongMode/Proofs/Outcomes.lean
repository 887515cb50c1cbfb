import Mathlib.Order.Defs.Unbundled

/-!
Computations that change a state and may fail, as calls of the host and the steps of loading are.
What was done before a failure stays.

* `Ends` says that a computation ends with a value, and takes it apart: into what its parts end
  with.
* `Keeps` says that the state that a computation leaves behind, whether it fails or not, is related
  to the one that it began in. For a preorder this is put together from the parts (`Keeps.bind`).
-/

set_option autoImplicit false
set_option relaxedAutoImplicit false

namespace LongMode

/-- A pair of which the second part is kept comes from a pair. -/
theorem exists_ok_of_map_snd {ε α β : Type} {x : Except ε (α × β)} {b : β}
    (h : x.map Prod.snd = .ok b) : ∃ a, x = .ok (a, b) := by
  cases x with
  | error e => nomatch h
  | ok v =>
    obtain ⟨a, b'⟩ := v
    simp only [Except.map, Except.ok.injEq] at h
    exact ⟨a, by rw [h]⟩

/-- What is calculated in two parts has both parts. -/
theorem exists_ok_of_bind {ε α β : Type} {x : Except ε α} {f : α → Except ε β} {b : β}
    (h : x >>= f = .ok b) : ∃ a, x = .ok a ∧ f a = .ok b := by
  cases x with
  | error e => cases h
  | ok a => exact ⟨a, rfl, h⟩

/-- What fails after a change of its value failed before it. -/
theorem eq_error_of_map {ε α β : Type} {x : Except ε α} {g : α → β} {e : ε}
    (h : x.map g = .error e) : x = .error e := by
  cases x with
  | error e' =>
    cases h
    rfl
  | ok v => cases h

/-! ### Ending with a value -/

section Ends

variable {ε σ α β : Type}

/-- Begun in state `s`, a computation ends with the value `v` in state `t`. -/
def Ends (c : ExceptT ε (StateM σ) α) (s : σ) (v : α) (t : σ) : Prop :=
  c.run.run s = (.ok v, t)

variable {c : ExceptT ε (StateM σ) α} {f : α → ExceptT ε (StateM σ) β} {s t : σ} {v : α} {w : β}

theorem ends_pure_iff {v' : α} :
    Ends (pure v' : ExceptT ε (StateM σ) α) s v t ↔ v' = v ∧ s = t := by
  change ((Except.ok v', s) = (Except.ok v, t)) ↔ _
  rw [Prod.mk.injEq, Except.ok.injEq]

theorem ends_bind_iff : Ends (c >>= f) s w t ↔ ∃ v u, Ends c s v u ∧ Ends (f v) u w t := by
  simp only [Ends]
  change ExceptT.bindCont f (c.run.run s).1 (c.run.run s).2 = _ ↔ _
  cases hrun : c.run.run s with
  | mk outcome u =>
    cases outcome with
    | error e =>
      constructor
      · intro h
        exact nomatch h
      · rintro ⟨v, u', h, _⟩
        exact nomatch h
    | ok v =>
      constructor
      · intro h
        exact ⟨v, u, rfl, h⟩
      · rintro ⟨v', u', h, hf⟩
        rw [Prod.mk.injEq, Except.ok.injEq] at h
        obtain ⟨rfl, rfl⟩ := h
        exact hf

/-- What comes after a part that ends goes on from there. -/
theorem Ends.run_bind (h : Ends c s v t) : (c >>= f).run.run s = (f v).run.run t := by
  change ExceptT.bindCont f (c.run.run s).1 (c.run.run s).2 = _
  rw [Ends] at h
  rw [h]
  rfl

/-- Nothing comes after a part that fails. -/
theorem run_bind_of_error {e : ε} (h : c.run.run s = (.error e, t)) :
    (c >>= f).run.run s = (.error e, t) := by
  change ExceptT.bindCont f (c.run.run s).1 (c.run.run s).2 = _
  rw [h]
  rfl

/-- A check either fails, and changes nothing, or goes on with what comes after it. -/
theorem run_guard {p : Prop} [Decidable p] {e : ε} {k : PUnit → ExceptT ε (StateM σ) α} :
    (if p then throw e >>= k else k ⟨⟩).run.run s =
      if p then (.error e, s) else (k ⟨⟩).run.run s := by
  split <;> rfl

theorem ends_get_iff {u : σ} : Ends (get : ExceptT ε (StateM σ) σ) s u t ↔ s = u ∧ s = t := by
  change ((Except.ok s, s) = (Except.ok u, t)) ↔ _
  rw [Prod.mk.injEq, Except.ok.injEq]

theorem ends_get (s : σ) : Ends (get : ExceptT ε (StateM σ) σ) s s s := rfl

theorem ends_set_iff {u : σ} {v : PUnit} :
    Ends (set u : ExceptT ε (StateM σ) PUnit) s v t ↔ u = t := by
  change ((Except.ok PUnit.unit, u) = (Except.ok v, t)) ↔ _
  simp

theorem ends_modify_iff {g : σ → σ} {v : PUnit} :
    Ends (modify g : ExceptT ε (StateM σ) PUnit) s v t ↔ g s = t := by
  change ((Except.ok PUnit.unit, g s) = (Except.ok v, t)) ↔ _
  simp

theorem not_ends_throw (e : ε) : ¬ Ends (throw e : ExceptT ε (StateM σ) α) s v t := by
  change ¬ ((Except.error e, s) = (Except.ok v, t))
  simp

theorem ends_liftM_iff {x : Except ε α} :
    Ends (liftM x : ExceptT ε (StateM σ) α) s v t ↔ x = .ok v ∧ s = t := by
  change ((x, s) = (Except.ok v, t)) ↔ _
  rw [Prod.mk.injEq]

theorem ends_liftM {x : Except ε α} (h : x = .ok v) :
    Ends (liftM x : ExceptT ε (StateM σ) α) s v s :=
  ends_liftM_iff.mpr ⟨h, rfl⟩

/-- Nothing comes after a failure that is taken over. -/
theorem run_liftM_bind_of_error {x : Except ε α} {e : ε} (h : x = .error e) :
    ((liftM x : ExceptT ε (StateM σ) α) >>= f).run.run s = (.error e, s) := by
  rw [h]
  rfl

/-- A loop over a list with one more element at its end. -/
theorem ends_forM_concat_iff {xs : List α} {x : α} {g : α → ExceptT ε (StateM σ) PUnit}
    {u : PUnit} :
    Ends ((xs ++ [x]).forM g) s u t ↔ ∃ r, Ends (xs.forM g) s u r ∧ Ends (g x) r u t := by
  change Ends (forM (xs ++ [x]) g) s u t ↔ ∃ r, Ends (forM xs g) s u r ∧ Ends (g x) r u t
  simp only [List.forM_append, List.forM_cons, List.forM_nil, bind_pure_unit, ends_bind_iff]
  exact ⟨fun ⟨_, r, h⟩ ↦ ⟨r, h⟩, fun ⟨r, h⟩ ↦ ⟨u, r, h⟩⟩

end Ends

/-! ### What is left behind -/

section Keeps

variable {ε σ α β : Type} {R : σ → σ → Prop}

/-- Begun in state `s`, a computation leaves a state behind that is related to `s`. -/
def Keeps (R : σ → σ → Prop) (c : ExceptT ε (StateM σ) α) (s : σ) : Prop :=
  R s (c.run.run s).2

variable {c : ExceptT ε (StateM σ) α} {f : α → ExceptT ε (StateM σ) β} {s t : σ} {v : α}

theorem Keeps.of_ends (h : Keeps R c s) (hends : Ends c s v t) : R s t := by
  rw [Ends] at hends
  rwa [Keeps, hends] at h

/-- What comes after reading the state knows what it is. -/
theorem keeps_get_bind_iff {f : σ → ExceptT ε (StateM σ) β} :
    Keeps R (get >>= f) s ↔ Keeps R (f s) s :=
  Iff.rfl

theorem keeps_set (h : R s t) : Keeps R (set t : ExceptT ε (StateM σ) PUnit) s :=
  h

theorem keeps_modify {g : σ → σ} (h : R s (g s)) :
    Keeps R (modify g : ExceptT ε (StateM σ) PUnit) s :=
  h

variable [IsPreorder σ R]

@[grind ←] theorem keeps_pure (v : α) : Keeps R (pure v : ExceptT ε (StateM σ) α) s :=
  refl_of R s

@[grind ←] theorem keeps_throw (e : ε) : Keeps R (throw e : ExceptT ε (StateM σ) α) s :=
  refl_of R s

@[grind ←] theorem keeps_get : Keeps R (get : ExceptT ε (StateM σ) σ) s :=
  refl_of R s

@[grind ←] theorem keeps_liftM (x : Except ε α) : Keeps R (liftM x : ExceptT ε (StateM σ) α) s :=
  refl_of R s

/-- The second of two parts begins where the first one ends, and may use how it ends. -/
theorem Keeps.bind (hc : Keeps R c s) (hf : ∀ v t, Ends c s v t → Keeps R (f v) t) :
    Keeps R (c >>= f) s := by
  change R s (ExceptT.bindCont f (c.run.run s).1 (c.run.run s).2).2
  rw [Keeps] at hc
  cases hrun : c.run.run s with
  | mk outcome t =>
    rw [hrun] at hc
    cases outcome with
    | error e => exact hc
    | ok v => exact trans_of R hc (hf v t hrun)

/-- Often it does not matter to the second part how the first one ends. -/
@[grind ←] theorem Keeps.andThen (hc : Keeps R c s) (hf : ∀ v t, Keeps R (f v) t) :
    Keeps R (c >>= f) s :=
  hc.bind fun v t _ ↦ hf v t

/-- Nothing comes after a failure. -/
@[grind ←] theorem keeps_throw_bind (e : ε) :
    Keeps R ((throw e : ExceptT ε (StateM σ) α) >>= f) s :=
  (keeps_throw e).bind fun _ _ h ↦ absurd h (not_ends_throw e)

@[grind ←] theorem keeps_forM {xs : List α} {g : α → ExceptT ε (StateM σ) PUnit}
    (h : ∀ x ∈ xs, ∀ s, Keeps R (g x) s) : Keeps R (xs.forM g) s := by
  induction xs generalizing s with
  | nil => exact keeps_pure _
  | cons x xs ih =>
    rw [List.forall_mem_cons] at h
    exact (h.1 s).bind fun _ _ _ ↦ ih h.2

@[grind ←] theorem keeps_mapM {xs : List α} {g : α → ExceptT ε (StateM σ) β}
    (h : ∀ x ∈ xs, ∀ s, Keeps R (g x) s) : Keeps R (xs.mapM g) s := by
  induction xs generalizing s with
  | nil => exact keeps_pure _
  | cons x xs ih =>
    rw [List.forall_mem_cons] at h
    rw [List.mapM_cons]
    exact (h.1 s).bind fun _ _ _ ↦ (ih h.2).bind fun _ _ _ ↦ keeps_pure _

end Keeps

end LongMode
