import LongMode.Proofs.Core.Atomicity

/-!
A run of a core as a chain of attempts. Whatever a core remembers, and however its runs are cut into
blocks, each link of the chain is an attempt of the thread at one instruction (`Thread.Attempt`),
and only a completed one is followed by another. What every such link keeps therefore holds at the
end of a run (`Core.Run.Inductive.run`).

So a thread comes out of a run under its number, it has ended exactly if the last result says so and
for that reason, and the faults that it has in its queue are those that the last result speaks of
(`Core.settles_run`).
-/

set_option autoImplicit false
set_option relaxedAutoImplicit false

namespace LongMode

/-! ### Attempts -/

/-- An attempt of a thread at one instruction. -/
inductive Thread.Attempt (t : Thread) (m : Memory) : Execution → Prop
  /-- An instruction is executed. -/
  | execute (i : Instruction) : Attempt t m (t.execute m i)
  /-- The instruction cannot be fetched. -/
  | raise (fault : MemoryFault) : Attempt t m (t.raise m (.memory fault) t.registers.rip)
  /-- What is fetched is no instruction. -/
  | halt (bytes : List UInt8) (error : DecodeError) :
    Attempt t m (t.haltOnDecode m t.registers.rip bytes error)
  /-- The decode cache has no place for the instruction. -/
  | panic (p : Panic) : Attempt t m (t.panic m p)

namespace Core

theorem attempt_stepOne (c : Core) (t : Thread) (m : Memory) :
    t.Attempt m (c.stepOne t m).1 := by
  rw [stepOne]
  split
  · exact .execute _
  · exact .raise _
  · exact .halt _ _
  · exact .panic _

namespace Run

/-- A property of runs that is kept by every attempt after a completed one, whatever the core
remembers. -/
structure Inductive (P : Run → Prop) : Prop where
  extend (r : Run) (core : Core) (e : Execution) : P r → r.result = .completed →
    r.thread.Attempt r.memory e → P ({ r with core }.extend e)
  core (r : Run) (core : Core) : P r → P { r with core }

namespace Inductive

variable {P : Run → Prop}

theorem updateBlocks (h : Inductive P) {r : Run} (hr : P r) (f : BlockTable → BlockTable) :
    P (r.updateBlocks f) :=
  h.core r { r.core with blocks := r.core.blocks.map f } hr

theorem next (h : Inductive P) {r : Run} (hr : P r) (hresult : r.result = .completed) :
    P ({ r with core := (r.core.stepOne r.thread r.memory).2 }.extend
      (r.core.stepOne r.thread r.memory).1) :=
  h.extend r _ _ hr hresult (attempt_stepOne _ _ _)

theorem runInstructions (h : Inductive P) (block : Block) (instructions : List Instruction)
    (budget : Nat) {r : Run} (hr : P r) (hresult : r.result = .completed) :
    P (Core.runInstructions block instructions budget r) := by
  induction instructions generalizing budget r with
  | nil =>
    rw [Core.runInstructions]
    exact hr
  | cons i rest ih =>
    cases budget with
    | zero => exact hr
    | succ budget =>
      rw [Core.runInstructions]
      split
      · exact hr
      · have hone := h.extend r r.core _ hr hresult (.execute i)
        dsimp only
        split
        · rename_i hcompleted
          split
          · exact h.updateBlocks hone _
          · exact ih budget hone hcompleted
        · exact hone

theorem runBlock (h : Inductive P) (block : Block) (budget : Nat) {r : Run} (hr : P r)
    (hresult : r.result = .completed) : P (Core.runBlock r block budget) :=
  h.updateBlocks (h.runInstructions block block.instructions budget hr hresult) _

theorem blockAt (h : Inductive P) {r : Run} (hr : P r) :
    P (Core.blockAt r).2 ∧ (Core.blockAt r).2.result = r.result := by
  rw [Core.blockAt]
  split
  · exact ⟨hr, rfl⟩
  · exact ⟨h.core r _ hr, rfl⟩

theorem advance (h : Inductive P) (budget : Nat) {r : Run} (hr : P r)
    (hresult : r.result = .completed) : P (Core.advance r budget) := by
  obtain ⟨hfound, hsame⟩ := h.blockAt hr
  rw [hresult] at hsame
  rw [Core.advance]
  dsimp only
  split
  · rename_i hblock
    rw [hblock] at hfound hsame
    exact h.next hfound hsame
  · rename_i block r' hblock
    rw [hblock] at hfound hsame
    have hrun := h.runBlock block budget hfound hsame
    split
    · rename_i hnothing
      exact h.next hrun hnothing.1
    · exact hrun

theorem runTurns (h : Inductive P) (budget turns : Nat) {r : Run} (hr : P r)
    (hresult : r.result = .completed) : P (Core.runTurns budget turns r) := by
  induction turns generalizing r with
  | zero => exact hr
  | succ turns ih =>
    rw [Core.runTurns]
    split
    · exact hr
    · have hadvance := h.advance (budget - r.executed) hr hresult
      dsimp only
      split
      · exact ih hadvance ‹_›
      · exact hadvance

variable {c : Core} {t : Thread} {m : Memory} {r : Run}

/-- What attempts keep is kept by a run. -/
theorem run (h : Inductive P) {budget : Nat} (hrun : c.run t (some m) budget = .ok r)
    (hstart : P { core := c, thread := t, memory := m }) : P r := by
  obtain ⟨_, m', hm, rfl⟩ := run_eq_ok.mp hrun
  obtain rfl := Option.some.inj hm
  exact h.runTurns _ _ hstart rfl

end Inductive

end Run

end Core

/-! ### What becomes of the thread -/

/-- The reason to have ended that a result speaks of. -/
def StepResult.haltReason? : StepResult → Option HaltReason
  | .halted reason => some reason
  | _ => none

/-- The faults that a result has put in the queue. -/
def StepResult.queued : StepResult → List PendingFault
  | .faulted fault a => [⟨fault, a⟩]
  | _ => []

/-- A thread after an attempt or a run with some result. -/
structure Thread.Settles (t t' : Thread) (result : StepResult) : Prop where
  tid_eq : t'.tid = t.tid
  halted_eq : t'.halted = result.haltReason?
  pending_eq : t.pending = [] → t'.pending = result.queued
  decode_of_halted (reason : HaltReason) : result = .halted reason →
    ∃ a bytes error, reason = .decode a bytes error

namespace Thread

variable {t t' : Thread} {m : Memory}

theorem settles_haltOnDecode (ht : t.halted = none) (a : Address) (bytes : List UInt8)
    (error : DecodeError) :
    t.Settles (t.haltOnDecode m a bytes error).thread (t.haltOnDecode m a bytes error).result := by
  obtain ⟨_, hhalted⟩ := commits_haltOnDecode (m := m) (a := a) ht bytes error
  obtain ⟨_, hthread, _⟩ := hhalted _ rfl
  rw [hthread]
  refine ⟨rfl, rfl, fun hpending ↦ hpending, fun reason h ↦ ?_⟩
  exact ⟨a, bytes, error, (StepResult.halted.inj h).symm⟩

theorem settles_raise (ht : t.halted = none) (fault : Fault) (a : Address) :
    t.Settles (t.raise m fault a).thread (t.raise m fault a).result := by
  unfold raise
  split
  · exact settles_haltOnDecode ht _ _ _
  · dsimp only
    rw [deliver_eq]
    refine ⟨rfl, ht, fun hpending ↦ ?_, fun reason h ↦ (nomatch h)⟩
    simp [hpending, maxPending, StepResult.queued]

theorem settles_panic (ht : t.halted = none) (p : Panic) :
    t.Settles (t.panic m p).thread (t.panic m p).result :=
  ⟨rfl, ht, fun hpending ↦ hpending, fun reason h ↦ by cases h⟩

theorem settles_abandon (ht : t.halted = none) (stop : Stop) (a : Address) :
    t.Settles (t.abandon m stop a).thread (t.abandon m stop a).result := by
  cases stop with
  | fault fault => exact settles_raise ht fault a
  | panic p => exact settles_panic ht p

theorem settles_execute (ht : t.halted = none) (i : Instruction) :
    t.Settles (t.execute m i).thread (t.execute m i).result := by
  rw [execute]
  split
  · exact settles_abandon ht _ _
  · rename_i done after _
    cases hsyscall : done.syscall with
    | false =>
      simp only [Bool.false_eq_true, if_false]
      exact ⟨rfl, ht, fun hpending ↦ hpending, fun reason h ↦ by cases h⟩
    | true =>
      simp only [if_true]
      exact ⟨rfl, ht, fun hpending ↦ hpending, fun reason h ↦ by cases h⟩

theorem Attempt.settles {e : Execution} (h : t.Attempt m e) (ht : t.halted = none) :
    t.Settles e.thread e.result := by
  cases h with
  | execute i => exact settles_execute ht i
  | raise fault => exact settles_raise ht _ _
  | halt bytes error => exact settles_haltOnDecode ht _ _ _
  | panic p => exact settles_panic ht p

theorem Settles.trans {t'' : Thread} {result : StepResult} (h : t.Settles t' .completed)
    (h' : t'.Settles t'' result) : t.Settles t'' result :=
  ⟨h'.tid_eq.trans h.tid_eq, h'.halted_eq, fun hpending ↦ h'.pending_eq (h.pending_eq hpending),
    h'.decode_of_halted⟩

/-- A thread that has ended meanwhile came to code that cannot be decoded. -/
theorem Settles.exists_decode {result : StepResult} (h : t.Settles t' result)
    {reason : HaltReason} (hended : t'.halted = some reason) :
    ∃ a bytes error, reason = .decode a bytes error := by
  have hresult := h.halted_eq.symm.trans hended
  cases result with
  | halted reason' =>
    obtain rfl := Option.some.inj hresult
    exact h.decode_of_halted reason' rfl
  | completed => nomatch hresult
  | syscall r => nomatch hresult
  | faulted fault a => nomatch hresult
  | panicked p => nomatch hresult

end Thread

namespace Core

theorem inductive_settles (t : Thread) :
    Run.Inductive fun r ↦ t.Settles r.thread r.result where
  extend r core e hr hresult he := by
    rw [hresult] at hr
    exact hr.trans (he.settles hr.halted_eq)
  core _ _ hr := hr

/-- A run leaves a thread under its number, ended exactly if the result says so, and with those
faults in an empty queue that the result speaks of. -/
theorem settles_run {c : Core} {t : Thread} {m : Memory} {budget : Nat} {r : Run}
    (h : c.run t (some m) budget = .ok r) : t.Settles r.thread r.result := by
  obtain ⟨ht, _⟩ := run_eq_ok.mp h
  refine (inductive_settles t).run h ⟨rfl, ht, fun hpending ↦ hpending, fun reason h ↦ (nomatch h)⟩

/-- A thread that has not ended can be run. -/
theorem exists_run (c : Core) {t : Thread} (ht : t.halted = none) (m : Memory) (budget : Nat) :
    ∃ r, c.run t (some m) budget = .ok r :=
  ⟨_, run_eq_ok.mpr ⟨ht, m, rfl, rfl⟩⟩

end Core

end LongMode
