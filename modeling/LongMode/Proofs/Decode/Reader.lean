import LongMode.Decode.Reader

/-!
What a reader does on a window depends on the bytes that it consumed (`Reader.run_eq_of_take_eq`),
and what it can be done with is known without a window (`Reader.All`).
-/

set_option autoImplicit false
set_option relaxedAutoImplicit false

namespace LongMode.Reader

variable {α β : Type}

/-- Every value that a reader can be done with has a property. -/
def All (P : α → Prop) : Reader α → Prop
  | done value => P value
  | reject => True
  | byte k => ∀ b, (k b).All P

theorem All.mono {P Q : α → Prop} {r : Reader α} (h : r.All P) (hPQ : ∀ v, P v → Q v) :
    r.All Q := by
  induction r with
  | done value => exact hPQ value h
  | reject => trivial
  | byte k ih => exact fun b ↦ ih b (h b)

theorem All.trivial (r : Reader α) : r.All fun _ ↦ True := by
  induction r with
  | done value => exact True.intro
  | reject => exact True.intro
  | byte k ih => exact ih

theorem All.bind {P : α → Prop} {Q : β → Prop} {r : Reader α} {f : α → Reader β} (h : r.All P)
    (hf : ∀ v, P v → (f v).All Q) : (r >>= f).All Q := by
  induction r with
  | done value => exact hf value h
  | reject => exact True.intro
  | byte k ih => exact fun b ↦ ih b (h b)

/-- The case of `All.bind` in which nothing is asked of the first reader. -/
theorem All.after {Q : β → Prop} (r : Reader α) {f : α → Reader β} (hf : ∀ v, (f v).All Q) :
    (r >>= f).All Q :=
  (All.trivial r).bind fun v _ ↦ hf v

theorem All.run {P : α → Prop} {r : Reader α} (h : r.All P) {taken length : Nat}
    {window : List UInt8} {value : α} (hrun : r.run taken window = .complete value length) :
    P value := by
  induction r generalizing taken window with
  | done v =>
    rw [Reader.run, Outcome.complete.injEq] at hrun
    exact hrun.1 ▸ h
  | reject => exact nomatch hrun
  | byte k ih =>
    cases window with
    | nil => exact nomatch hrun
    | cons b bs => exact ih b (h b) hrun

/-- A reader that is done consumed a part of its window. -/
theorem length_of_run {r : Reader α} {taken length : Nat} {window : List UInt8} {value : α}
    (h : r.run taken window = .complete value length) :
    taken ≤ length ∧ length ≤ taken + window.length := by
  induction r generalizing taken window with
  | done v =>
    rw [Reader.run, Outcome.complete.injEq] at h
    omega
  | reject => exact nomatch h
  | byte k ih =>
    cases window with
    | nil => exact nomatch h
    | cons b bs =>
      have hrest := ih b h
      rw [List.length_cons]
      omega

/-- A reader that is done is done in the same way on every window that begins with the bytes it
consumed. -/
theorem run_eq_of_take_eq {r : Reader α} {taken length : Nat} {window window' : List UInt8}
    {value : α} (h : r.run taken window = .complete value length)
    (hsame : window'.take (length - taken) = window.take (length - taken)) :
    r.run taken window' = .complete value length := by
  induction r generalizing taken window window' with
  | done v => exact h
  | reject => exact nomatch h
  | byte k ih =>
    cases window with
    | nil => exact nomatch h
    | cons b bs =>
      have hlength := (length_of_run (r := k b) h).1
      obtain ⟨count, hcount⟩ : ∃ count, length - taken = count + 1 :=
        ⟨length - taken - 1, by omega⟩
      rw [hcount, List.take_succ_cons] at hsame
      cases window' with
      | nil => exact nomatch hsame
      | cons b' bs' =>
        rw [List.take_succ_cons, List.cons.injEq] at hsame
        obtain ⟨rfl, hrest⟩ := hsame
        refine ih b' h ?_
        rw [show length - (taken + 1) = count by omega]
        exact hrest

end LongMode.Reader
