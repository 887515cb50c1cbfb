import LongMode.Proofs.Core.Refinement
import LongMode.Proofs.Elf.Evolution
import LongMode.Proofs.ThreadGroup.Turns
import Mathlib.Logic.Function.Iterate

/-!
Processes of one thread. How many instructions the thread runs before it looks whether the process
is ending, and what its core remembers, changes how fast the process comes to its end, not which end
that is.

The reference is the same process with a core that remembers nothing and with batches of one
instruction (`ThreadGroup.bare`). A batch is a run, a run is made of steps, and between two steps
the reference finds nothing to deal with (`ThreadGroup.exists_iterate_lap`). So a round of the
process is some number of rounds of the reference, and at least one (`ThreadGroup.Solo.exists_lap`).
What has ended stays as it is; all ways to bring a process to its end therefore come to the same
end (`ThreadGroup.Solo.same_end`, `Launch.outcome_eq_of_settings`).
-/

set_option autoImplicit false
set_option relaxedAutoImplicit false

namespace LongMode

/-! ### Steps of the reference -/

namespace Core

/-- A core that remembers nothing does not come to remember anything. -/
theorem Run.bare_next {r : Run} (h : r.bare = r) : r.next.bare = r.next := by
  have hcore : r.core.bare = r.core := congrArg Run.core h
  have hnext := r.next_bare
  rw [h] at hnext
  rw [hnext, bare]
  exact congrArg (fun core ↦ { r.extend (interpret r.thread r.memory) with core }) hcore

/-- A run of one instruction on a core that remembers nothing is a step. -/
theorem run_one_of_bare {c : Core} (hc : c.bare = c) {t : Thread} (ht : t.halted = none)
    (m : Memory) :
    c.run t (some m) 1 = .ok (Run.next { core := c, thread := t, memory := m }) := by
  have hblocks : c.blocks = none := by
    rw [← hc]
    rfl
  have hadvance : advance { core := c, thread := t, memory := m } 1 =
      Run.next { core := c, thread := t, memory := m } := by
    simp only [advance, blockAt, hblocks]
    rfl
  refine run_eq_ok.mpr ⟨ht, m, rfl, ?_⟩
  rw [runTurns, if_neg (Nat.not_succ_le_zero 0), Nat.sub_zero, hadvance]
  dsimp only [runTurns]
  split
  · rfl
  · rfl

end Core

/-! ### The reference -/

/-- Settings for a core that remembers nothing, and for batches of one instruction. -/
def Settings.stepwise (s : Settings) : Settings :=
  { s with core := .interpreterOnly, batchSize := 1 }

/-- A thread on a core that remembers nothing. -/
def Worker.bare (w : Worker) : Worker :=
  { w with core := w.core.bare }

namespace ThreadGroup

/-- A process with batches of one instruction on cores that remember nothing. -/
def bare (p : ThreadGroup) : ThreadGroup :=
  { p with settings := p.settings.stepwise, workers := p.workers.map Worker.bare }

/-- A whole round of the first thread. -/
def lap (p : ThreadGroup) : ThreadGroup :=
  ((p.advance 0).advance 0).advance 0

/-- A process whose only thread is where a run has got, at some place in its round. -/
def hold (p : ThreadGroup) (r : Core.Run) (phase : Phase) : ThreadGroup :=
  { p with memory := r.memory, workers := [{ thread := r.thread, core := r.core, phase }] }

/-- A process whose only thread has run a batch and dealt with what ended it. -/
def settle (p : ThreadGroup) (r : Core.Run) : ThreadGroup :=
  (p.hold r (.stopped r.result)).advance 0

variable {p q : ThreadGroup} {w : Worker} {r : Core.Run}

theorem settle_of_completed (h : r.result = .completed) : p.settle r = p.hold r .ready := by
  simp [settle, hold, advance, h, handle, setWorker]

theorem settle_of_panicked {cause : Panic} (h : r.result = .panicked cause) :
    p.settle r = p.hold r .panicked := by
  simp [settle, hold, advance, h, handle, setWorker]

/-! ### What there is to see of a process -/

theorem bare_setWorker (p : ThreadGroup) (i : Nat) (w : Worker) :
    (p.setWorker i w).bare = p.bare.setWorker i w.bare := by
  simp only [setWorker, bare, List.map_set]

theorem bare_check (p : ThreadGroup) (w : Worker) : (p.check w).bare = p.bare.check w.bare := by
  simp only [check, apply_ite Worker.bare]
  rfl

theorem bare_serve (p : ThreadGroup) (i : Nat) (w : Worker) (r : SyscallRequest) :
    (p.serve i w r).bare = p.bare.serve i w.bare r := by
  have hcall : Linux.Caller.call ⟨p.bare.kernel, p.bare.memory, w.bare.thread⟩ r =
      Linux.Caller.call ⟨p.kernel, p.memory, w.thread⟩ r := rfl
  rw [serve, serve, hcall]
  generalize Linux.Caller.call ⟨p.kernel, p.memory, w.thread⟩ r = outcome
  obtain ⟨disposition, c⟩ := outcome
  cases disposition with
  | answer value => exact bare_setWorker _ _ _
  | exit status => exact bare_setWorker _ _ _
  | exitProcess status => exact bare_setWorker _ _ _

theorem bare_fail (p : ThreadGroup) (i : Nat) (w : Worker) :
    (p.fail i w).bare = p.bare.fail i w.bare := by
  have hfault : w.bare.thread.takeFault = w.thread.takeFault := rfl
  have hpolicy : p.bare.settings.faultPolicy = p.settings.faultPolicy := rfl
  rw [fail, fail, hfault, hpolicy]
  obtain ⟨pending, thread⟩ := w.thread.takeFault
  cases pending with
  | none => exact bare_setWorker _ _ _
  | some pending =>
    cases p.settings.faultPolicy with
    | killProcess => exact bare_setWorker _ _ _
    | haltThread => exact bare_setWorker _ _ _

theorem bare_handle (p : ThreadGroup) (i : Nat) (w : Worker) (result : StepResult) :
    (p.handle i w result).bare = p.bare.handle i w.bare result := by
  cases result with
  | completed => exact bare_setWorker _ _ _
  | halted reason => exact bare_setWorker _ _ _
  | syscall r => exact bare_serve _ _ _ _
  | faulted fault a => exact bare_fail _ _ _
  | panicked cause => exact bare_setWorker _ _ _

theorem settle_eq (p : ThreadGroup) (r : Core.Run) :
    p.settle r = (p.hold r (.stopped r.result)).handle 0
      { thread := r.thread, core := r.core, phase := .ready } r.result :=
  rfl

/-- To deal with the end of a batch is the same whatever cores remember. -/
theorem bare_settle (p : ThreadGroup) (r : Core.Run) :
    (p.settle r).bare = p.bare.settle r.bare := by
  rw [settle_eq, bare_handle]
  rfl

/-! ### Rounds of the reference -/

/-- In a round a thread that can go on runs a batch, and what ended the batch is dealt with. -/
theorem lap_of_run (hworkers : p.workers = [w]) (hphase : w.phase = .ready)
    (hrunning : w.thread.halted = none) (hexiting : p.exiting = false)
    (hrun : w.core.run w.thread (some p.memory) p.settings.batchSize = .ok r) :
    p.lap = p.settle r := by
  have hcheck : p.advance 0 = { p with workers := [{ w with phase := .cleared }] } := by
    simp [advance, hworkers, hphase, check, setWorker, Thread.isHalted, hrunning, hexiting]
  have hbatch : (p.advance 0).advance 0 = p.hold r (.stopped r.result) := by
    rw [hcheck]
    simp [advance, runBatch, hrun, setWorker, hold]
  rw [lap, hbatch]
  rfl

/-- With batches of one instruction, on a core that remembers nothing, a round is a step. -/
theorem lap_hold (hr : r.bare = r) (hrunning : r.thread.halted = none)
    (hbatch : p.settings.batchSize = 1) (hexiting : p.exiting = false) :
    (p.hold r .ready).lap = p.settle r.next := by
  have hstep := Core.run_one_of_bare (congrArg Core.Run.core hr) hrunning r.memory
  rw [← hbatch] at hstep
  have hlap : (p.hold r .ready).lap = (p.hold r .ready).settle
      (Core.Run.next { core := r.core, thread := r.thread, memory := r.memory }) :=
    lap_of_run rfl rfl hrunning hexiting hstep
  exact hlap

/-- A run of the reference, and what follows it, is as many rounds as there are steps. -/
theorem exists_iterate_lap (hbatch : p.settings.batchSize = 1) (hexiting : p.exiting = false)
    (budget : Nat) (hr : r.bare = r) (hrunning : r.thread.halted = none)
    (hresult : r.result = .completed) :
    ∃ count, (0 < budget → 0 < count) ∧
      lap^[count] (p.hold r .ready) = p.settle (Core.stepwise budget r) := by
  induction budget generalizing r with
  | zero =>
    refine ⟨0, id, ?_⟩
    rw [Core.stepwise, settle_of_completed hresult]
    rfl
  | succ budget ih =>
    have hnext := lap_hold hr hrunning hbatch hexiting
    by_cases hcompleted : r.next.result = .completed
    · have hsettles := (Core.attempt_stepOne r.core r.thread r.memory).settles hrunning
      have hgoing : r.next.thread.halted = r.next.result.haltReason? := hsettles.halted_eq
      rw [hcompleted] at hgoing
      obtain ⟨count, _, hcount⟩ := ih (Core.Run.bare_next hr) hgoing hcompleted
      refine ⟨count + 1, fun _ ↦ Nat.succ_pos _, ?_⟩
      rw [Function.iterate_succ_apply, hnext, settle_of_completed hcompleted, hcount,
        Core.stepwise_succ_of_completed hcompleted]
    · refine ⟨1, fun _ ↦ Nat.one_pos, ?_⟩
      rw [Core.stepwise_succ_of_ne hcompleted]
      exact hnext

/-! ### Rounds of any process of one thread -/

/-- A process whose only thread is between two rounds, on a core that remembers what memory has
held. -/
structure Solo (p : ThreadGroup) (w : Worker) : Prop where
  workers_eq : p.workers = [w]
  coherent : w.core.Coherent p.memory.frames
  wellFormed : p.memory.WellFormed
  between : w.phase = .ready ∨ w.isOver = true

/-- A round ends when the end of a batch was dealt with. -/
theorem exists_solo_settle (p : ThreadGroup) (hcoherent : r.core.Coherent r.memory.frames)
    (hm : r.memory.WellFormed) : ∃ w, (p.settle r).Solo w ∧ w.core = r.core := by
  rw [settle_eq]
  cases hresult : r.result with
  | completed => exact ⟨_, ⟨rfl, hcoherent, hm, .inl rfl⟩, rfl⟩
  | halted reason => exact ⟨_, ⟨rfl, hcoherent, hm, .inl rfl⟩, rfl⟩
  | syscall request =>
    have hcaller : (Linux.Caller.mk p.kernel r.memory r.thread).memory.WellFormed := hm
    have hcall := Linux.Caller.succeeds_call hcaller request
    rw [handle, serve]
    dsimp only [hold]
    generalize Linux.Caller.call ⟨p.kernel, r.memory, r.thread⟩ request = outcome at hcall ⊢
    obtain ⟨disposition, c⟩ := outcome
    have hkept := hcoherent.mono hcall.evolves
    cases disposition with
    | answer value => exact ⟨_, ⟨rfl, hkept, hcall.wellFormed, .inl rfl⟩, rfl⟩
    | exit status => exact ⟨_, ⟨rfl, hkept, hcall.wellFormed, .inl rfl⟩, rfl⟩
    | exitProcess status => exact ⟨_, ⟨rfl, hkept, hcall.wellFormed, .inl rfl⟩, rfl⟩
  | faulted fault a =>
    rw [handle, fail]
    dsimp only [hold]
    obtain ⟨pending, thread⟩ := r.thread.takeFault
    cases pending with
    | none => exact ⟨_, ⟨rfl, hcoherent, hm, .inl rfl⟩, rfl⟩
    | some pending =>
      cases hpolicy : p.settings.faultPolicy with
      | killProcess => exact ⟨_, ⟨rfl, hcoherent, hm, .inl rfl⟩, rfl⟩
      | haltThread => exact ⟨_, ⟨rfl, hcoherent, hm, .inl rfl⟩, rfl⟩
  | panicked cause => exact ⟨_, ⟨rfl, hcoherent, hm, .inr rfl⟩, rfl⟩

/-- A process in which no thread has rounds left stays as it is. -/
theorem lap_of_isOver (hworkers : p.workers = [w]) (hover : w.isOver = true) : p.lap = p := by
  have hsame : p.advance 0 = p := (advance_of_isOver (by simp [hworkers]) hover).1
  rw [lap, hsame, hsame, hsame]

/-- In a round a thread that has ended, or that is to end, gets no further rounds. -/
theorem lap_of_check (hworkers : p.workers = [w]) (hphase : w.phase = .ready)
    (hcheck : (p.check w).isFinished = true) : p.lap = p.setWorker 0 (p.check w) := by
  have hfirst : p.advance 0 = p.setWorker 0 (p.check w) := by
    simp [advance, hworkers, hphase]
  have hsame : (p.setWorker 0 (p.check w)).advance 0 = p.setWorker 0 (p.check w) :=
    (advance_of_isOver (w := p.check w) (by simp [setWorker, hworkers])
      (by rw [Worker.isOver, hcheck, Bool.true_or])).1
  rw [lap, hfirst, hsame, hsame]

theorem core_check (p : ThreadGroup) (w : Worker) : (p.check w).core = w.core := by
  rw [check]
  split
  · rfl
  · split
    · rfl
    · rfl

/-- A thread goes on unless it has ended or is to end. -/
theorem going_of_check (h : (p.check w).isFinished ≠ true) :
    w.thread.halted = none ∧ p.exiting = false := by
  rw [check] at h
  split at h
  · exact absurd rfl h
  · rename_i hrunning
    split at h
    · exact absurd rfl h
    · rename_i hexiting
      exact ⟨Option.not_isSome_iff_eq_none.mp hrunning, Bool.eq_false_iff.mpr hexiting⟩

/-- A round of a process of one thread is some number of rounds of the reference, and at least one
unless batches are empty. If the decode cache has no places, a panic may end the thread instead. -/
theorem Solo.exists_lap (h : p.Solo w) :
    ∃ w', p.lap.Solo w' ∧ (w.core.Placed → w'.core.Placed) ∧
      ((¬w.core.Placed ∧ w'.isPanicked = true) ∨
        ∃ count, (w.core.Placed → 0 < p.settings.batchSize → 0 < count) ∧
          p.lap.bare = lap^[count] p.bare) := by
  have hbare : p.bare.workers = [w.bare] := by
    rw [bare, h.workers_eq]
    rfl
  obtain hready | hover := h.between
  · by_cases hcheck : (p.check w).isFinished = true
    · have hlap := lap_of_check h.workers_eq hready hcheck
      have hlap' : p.bare.lap = p.bare.setWorker 0 (p.bare.check w.bare) :=
        lap_of_check hbare hready (by rw [← bare_check]; exact hcheck)
      have hcore := core_check p w
      refine ⟨p.check w, ?_, fun hplaced ↦ hplaced.of_cache_eq (congrArg Core.cache hcore),
        .inr ⟨1, fun _ _ ↦ Nat.one_pos, ?_⟩⟩
      · rw [hlap]
        refine ⟨by simp [setWorker, h.workers_eq], ?_, h.wellFormed, .inr ?_⟩
        · rw [hcore]
          exact h.coherent
        · rw [Worker.isOver, hcheck, Bool.true_or]
      · rw [hlap, bare_setWorker, bare_check]
        exact hlap'.symm
    · obtain ⟨hrunning, hexiting⟩ := going_of_check hcheck
      obtain ⟨r, hrun⟩ := Core.exists_run w.core hrunning p.memory p.settings.batchSize
      have hlap := lap_of_run h.workers_eq hready hrunning hexiting hrun
      obtain ⟨steps, hadvances⟩ := Core.advances_run h.coherent h.wellFormed hrun
      obtain ⟨w', hsolo, hcore⟩ := exists_solo_settle p hadvances.sound.coherent
        hadvances.sound.wellFormed
      rw [← hlap] at hsolo
      refine ⟨w', hsolo, fun hplaced ↦ hcore ▸ hadvances.placed hplaced, ?_⟩
      have hhold : p.bare.hold { core := w.core.bare, thread := w.thread, memory := p.memory }
          .ready = p.bare := by
        rw [← hready]
        exact congrArg (fun workers ↦ { p.bare with workers }) hbare.symm
      have hlaps (budget : Nat) := exists_iterate_lap (p := p.bare) rfl hexiting budget
        (r := { core := w.core.bare, thread := w.thread, memory := p.memory }) rfl hrunning rfl
      by_cases hplaced : w.core.Placed
      · -- the batch is used up, so it counts as many steps as it is long
        have hmap := Core.run_map_bare h.coherent hplaced h.wellFormed w.thread p.settings.batchSize
        rw [hrun] at hmap
        obtain ⟨_, m, hm, hstepwise⟩ := Core.runnable_bind_eq_ok.mp hmap.symm
        obtain rfl := Option.some.inj hm
        obtain ⟨count, hpositive, hcount⟩ := hlaps p.settings.batchSize
        refine .inr ⟨count, fun _ ↦ hpositive, ?_⟩
        rw [hlap, bare_settle, ← hstepwise, ← hcount, hhold]
      · obtain hsteps | ⟨-, -, cause, hcut⟩ := hadvances.bare_eq
        · obtain ⟨count, -, hcount⟩ := hlaps steps
          refine .inr ⟨count, fun h ↦ absurd h hplaced, ?_⟩
          rw [hlap, bare_settle, hsteps]
          exact hcount.symm.trans (congrArg _ hhold)
        · refine .inl ⟨hplaced, ?_⟩
          have hresult : r.result = .panicked cause := congrArg Core.Run.result hcut
          have hworkers := hsolo.workers_eq
          rw [hlap, settle_of_panicked hresult] at hworkers
          rw [← List.singleton_inj.mp hworkers]
          rfl
  · have hlap := lap_of_isOver h.workers_eq hover
    refine ⟨w, hlap.symm ▸ h, id, .inr ⟨1, fun _ _ ↦ Nat.one_pos, ?_⟩⟩
    rw [hlap]
    exact (lap_of_isOver hbare hover).symm

/-! ### To the end of a process -/

/-- A process in which no thread has rounds left stays as it is. -/
theorem advance_of_isFinished (h : p.isFinished) (i : Nat) : p.advance i = p := by
  cases hfound : p.workers[i]? with
  | none => exact advance_of_none hfound
  | some w =>
    have hw := List.all_eq_true.mp h w (List.mem_of_getElem? hfound)
    exact (advance_of_isOver hfound (by rw [Worker.isOver, hw, Bool.true_or])).1

theorem isFixedPt_lap (h : p.isFinished) : Function.IsFixedPt lap p := by
  have hsame := advance_of_isFinished h 0
  change p.lap = p
  rw [lap, hsame, hsame, hsame]

theorem isFinished_bare (p : ThreadGroup) : p.bare.isFinished = p.isFinished := by
  rw [isFinished, isFinished, bare, List.all_map]
  rfl

/-- The only thread of a process is the one that advances. -/
theorem advanceAll_eq_iterate (hp : p.Sound) (hone : p.workers.length = 1) (order : List Nat) :
    p.advanceAll order = (fun p ↦ p.advance 0)^[order.count 0] p := by
  induction order generalizing p with
  | nil => rfl
  | cons i order ih =>
    have hturned := turned_advance hp i
    have hnext := ih (hp.turn (.advance i)) (hturned.length_eq.trans hone)
    by_cases hi : i = 0
    · subst hi
      rw [List.count_cons_self, Function.iterate_succ_apply]
      exact hnext
    · rw [List.count_cons_of_ne hi]
      have hidle : p.advance i = p := advance_of_none (by rw [List.getElem?_eq_none_iff]; omega)
      change (p.advance i).advanceAll order = _
      have hnext' : (p.advance i).advanceAll order =
          (fun p ↦ p.advance 0)^[order.count 0] (p.advance i) := hnext
      rw [hnext', hidle]

/-- A process that can be brought to its end is brought there by whole rounds. -/
theorem iterate_lap_of_isFinished (hp : p.Sound) (hone : p.workers.length = 1) {order : List Nat}
    (h : (p.advanceAll order).isFinished) :
    lap^[order.count 0] p = p.advanceAll order := by
  have hlap : lap = (fun p ↦ p.advance 0)^[3] := rfl
  rw [advanceAll_eq_iterate hp hone] at h ⊢
  generalize order.count 0 = n at h ⊢
  have hthrice : 3 * n = 2 * n + n := by omega
  rw [hlap, ← Function.iterate_mul, hthrice, Function.iterate_add_apply]
  exact Function.iterate_fixed (advance_of_isFinished h 0) _

theorem Sound.lap (hp : p.Sound) : p.lap.Sound ∧ p.lap.settings = p.settings := by
  have h₁ := hp.turn (.advance 0)
  have h₂ := h₁.turn (.advance 0)
  exact ⟨h₂.turn (.advance 0), (turned_advance h₂ 0).settings_eq.trans <|
    (turned_advance h₁ 0).settings_eq.trans (turned_advance hp 0).settings_eq⟩

/-- A thread that panicked has no more rounds, and its process does not come to an end. -/
theorem Solo.not_isFinished (h : p.Solo w) (hpanicked : w.isPanicked = true) (n : Nat) :
    ¬(ThreadGroup.lap^[n] p).isFinished = true := by
  have hlap := lap_of_isOver h.workers_eq (by rw [Worker.isOver, hpanicked, Bool.or_true])
  have hphase : w.phase = .panicked := of_decide_eq_true hpanicked
  rw [Function.iterate_fixed hlap, isFinished, h.workers_eq, List.all_cons, Worker.isFinished,
    hphase]
  decide

/-- So many rounds of a process of one thread are at least as many of the reference. If the decode
cache has no places, they are some number of them or come to no end. -/
theorem Solo.exists_iterate_lap (h : p.Solo w) (hp : p.Sound) (n : Nat) :
    (¬w.core.Placed ∧ ¬(ThreadGroup.lap^[n] p).isFinished = true) ∨
      ∃ count, (w.core.Placed → 0 < p.settings.batchSize → n ≤ count) ∧
        (ThreadGroup.lap^[n] p).bare = ThreadGroup.lap^[count] p.bare := by
  induction n generalizing p w with
  | zero => exact .inr ⟨0, fun _ _ ↦ Nat.le_refl 0, rfl⟩
  | succ n ih =>
    obtain ⟨w', hnext, hplaced, ⟨hnone, hpanicked⟩ | ⟨first, hfirst, hlap⟩⟩ := h.exists_lap
    · exact .inl ⟨hnone, hnext.not_isFinished hpanicked n⟩
    obtain ⟨hsound, hsettings⟩ := hp.lap
    obtain ⟨hnone, hunfinished⟩ | ⟨rest, hrest, hlaps⟩ := ih hnext hsound
    · exact .inl ⟨mt hplaced hnone, hunfinished⟩
    rw [hsettings] at hrest
    refine .inr ⟨rest + first, fun h hbatch ↦
      Nat.add_le_add (hrest (hplaced h) hbatch) (hfirst h hbatch), ?_⟩
    rw [Function.iterate_succ_apply, hlaps, hlap, Function.iterate_add_apply]

/-- Two iterates of a function that stay as they are agree. -/
theorem iterate_eq_of_isFixedPt {α : Type*} {f : α → α} {x : α} {a b : Nat}
    (ha : Function.IsFixedPt f (f^[a] x)) (hb : Function.IsFixedPt f (f^[b] x)) :
    f^[a] x = f^[b] x := by
  rw [← Function.iterate_fixed ha b, ← Function.iterate_add_apply, Nat.add_comm,
    Function.iterate_add_apply, Function.iterate_fixed hb a]

/-- A process of one thread that was brought to its end has done rounds of the reference. -/
theorem Solo.exists_end (h : p.Solo w) (hp : p.Sound) {order : List Nat}
    (hend : (p.advanceAll order).isFinished) :
    ∃ count, (p.advanceAll order).bare = ThreadGroup.lap^[count] p.bare ∧
      Function.IsFixedPt ThreadGroup.lap (ThreadGroup.lap^[count] p.bare) := by
  have hone : p.workers.length = 1 := by rw [h.workers_eq, List.length_singleton]
  have hrounds := iterate_lap_of_isFinished hp hone hend
  obtain ⟨-, hunfinished⟩ | ⟨count, _, hcount⟩ := h.exists_iterate_lap hp (order.count 0)
  · exact absurd (hrounds ▸ hend) hunfinished
  rw [hrounds] at hcount
  refine ⟨count, hcount, isFixedPt_lap ?_⟩
  rw [← hcount, isFinished_bare]
  exact hend

/-- Two processes of one thread that are the same but for their batches and for what their cores
remember: if one of them can be brought to its end, so can the other, as long as its decode cache
has places, and they have the same end. -/
theorem Solo.same_end {v : Worker} (h : p.Solo w) (hp : p.Sound) (h' : q.Solo v) (hq : q.Sound)
    (hsame : q.bare = p.bare) (hbatch : 0 < q.settings.batchSize) {order : List Nat}
    (hend : (p.advanceAll order).isFinished) :
    (v.core.Placed → ∃ order', (q.advanceAll order').isFinished) ∧
      ∀ order', (q.advanceAll order').isFinished →
        (q.advanceAll order').bare = (p.advanceAll order).bare := by
  obtain ⟨n, hn, hfixed⟩ := h.exists_end hp hend
  constructor
  · -- as many rounds as the reference needs are enough
    intro hplaced
    obtain ⟨count, hle, hcount⟩ := (h'.exists_iterate_lap hq n).resolve_left fun h ↦ h.1 hplaced
    obtain ⟨more, rfl⟩ := Nat.exists_eq_add_of_le' (hle hplaced hbatch)
    rw [hsame, Function.iterate_add_apply, Function.iterate_fixed hfixed, ← hn] at hcount
    refine ⟨List.replicate (3 * n) 0, ?_⟩
    have hone : q.workers.length = 1 := by rw [h'.workers_eq, List.length_singleton]
    have hlap : ThreadGroup.lap = (fun p ↦ p.advance 0)^[3] := rfl
    rw [advanceAll_eq_iterate hq hone, List.count_replicate_self, Function.iterate_mul, ← hlap,
      ← isFinished_bare, hcount, isFinished_bare]
    exact hend
  · intro order' hend'
    obtain ⟨n', hn', hfixed'⟩ := h'.exists_end hq hend'
    rw [hsame] at hn' hfixed'
    rw [hn', hn]
    exact iterate_eq_of_isFixedPt hfixed' hfixed

/-- A process that has just got its first thread. -/
theorem solo_spawn (s : Settings) {m : Memory} (hm : m.WellFormed) (kernel : Linux.Kernel)
    (registers : RegisterFile) :
    ((start s m kernel).spawn registers).Solo ((start s m kernel).recruit registers) :=
  ⟨rfl, Core.coherent_ofConfig s.core m.frames, hm, .inl rfl⟩

/-- What is left of a process does not depend on what its cores remember. -/
theorem exit_bare (p : ThreadGroup) : p.bare.exit = p.exit := by
  have hexits : p.bare.workers.map Worker.exit = p.workers.map Worker.exit := by
    rw [bare, List.map_map]
    rfl
  rw [exit, exit, hexits]
  rfl

end ThreadGroup

/-! ### Launches -/

/-- Something that the host does to memory before a thread starts. -/
inductive Preparation where
  /-- Something happens to the memory of the machine. -/
  | act (action : Action)
  /-- A program is loaded, or fails to be. -/
  | load (image : List UInt8) (options : Elf.LoadOptions)

/-- Prepare address space `k`. -/
def Preparation.perform (k : Nat) (w : World) : Preparation → World
  | act action => (w.step action).2
  | load image options => w.replace k ((w.memory k).load image options).2

theorem Preparation.wellFormed_foldl (k : Nat) {w : World} (h : w.WellFormed)
    (preparations : List Preparation) : (preparations.foldl (perform k) w).WellFormed := by
  induction preparations generalizing w with
  | nil => exact h
  | cons preparation preparations ih =>
    refine ih ?_
    cases preparation with
    | act action => exact (h.step action).1
    | load image options => exact h.replace (Memory.succeeds_load (h.memory k) image options)

/-- How a process of one thread comes about. -/
inductive Launch where
  /-- A thread with some registers starts in an address space that was prepared in some way. -/
  | inMemory (windows : Nat → MapWindow) (k : Nat) (preparations : List Preparation)
    (kernel : Linux.Kernel) (registers : RegisterFile)
  /-- A program is loaded in memory of its own. -/
  | program (image : List UInt8) (options : Elf.LoadOptions)
    (kernel : Elf.LoadedImage → Linux.Kernel)

namespace Launch

/-- The process that comes about. -/
def process : Launch → Settings → Except Elf.LoadError ThreadGroup
  | inMemory windows k preparations kernel registers, s =>
    let world := preparations.foldl (Preparation.perform k) (World.start windows)
    .ok ((ThreadGroup.start s (world.memory k) kernel).spawn registers)
  | program image options kernel, s =>
    (ThreadGroup.ofImage image options s kernel).map Prod.fst

/-- A launch starts a thread in well-formed memory, and neither cores nor batches have a part in
what is in memory, in the kernel and in the registers. -/
theorem exists_spawn {l : Launch} {s : Settings} {p : ThreadGroup} (h : l.process s = .ok p) :
    ∃ m kernel registers, m.WellFormed ∧ ∀ core batch,
      l.process { s with core, batchSize := batch } =
        .ok ((ThreadGroup.start { s with core, batchSize := batch } m kernel).spawn registers) ∧
      p = (ThreadGroup.start s m kernel).spawn registers := by
  cases l with
  | inMemory windows k preparations kernel registers =>
    have hworld := Preparation.wellFormed_foldl k (World.wellFormed_start windows) preparations
    exact ⟨_, kernel, registers, hworld.memory k, fun core batch ↦ ⟨rfl, (Except.ok.inj h).symm⟩⟩
  | program image options kernel =>
    have hfresh : (Memory.mk {} { window := s.window }).WellFormed :=
      (World.wellFormed_start fun _ ↦ s.window).memory 0
    have hloaded := Memory.succeeds_load hfresh image { options with stackSize := s.stackSize }
    simp only [process, ThreadGroup.ofImage] at h ⊢
    cases hload : (Memory.mk {} { window := s.window }).load image
        { options with stackSize := s.stackSize } with
    | mk outcome m =>
      rw [hload] at h hloaded
      cases outcome with
      | error e => nomatch h
      | ok loaded =>
        refine ⟨m, kernel loaded, loaded.initialRegisters, hloaded.wellFormed,
          fun core batch ↦ ⟨rfl, ?_⟩⟩
        exact (Except.ok.inj h).symm

/-- A process that has come about has one thread, which has not begun. -/
theorem exists_solo {l : Launch} {s : Settings} {p : ThreadGroup} (h : l.process s = .ok p) :
    ∃ w, p.Solo w ∧ p.Sound := by
  obtain ⟨m, kernel, registers, hm, hprocess⟩ := exists_spawn h
  obtain ⟨-, rfl⟩ := hprocess s.core s.batchSize
  exact ⟨_, ThreadGroup.solo_spawn s hm kernel registers,
    (ThreadGroup.sound_start s m kernel).turn (.spawn registers)⟩

/-- If a process of one thread comes to its end, it also does so with a core that is set up in any
other way and with batches of any other size, as long as the decode cache is for at most 2^63
instructions. However the process is set up and however often it is advanced, the end that it comes
to is the same: the status of the process, why its thread ended, how many instructions that
completed and its registers, all that the kernel keeps, with everything that was put out, and all of
memory. -/
theorem outcome_eq_of_settings (l : Launch) (s : Settings) (core : CoreConfig) {batch : Nat}
    (hbatch : 0 < batch) {p : ThreadGroup} (hp : l.process s = .ok p) {order : List Nat}
    (hend : (p.advanceAll order).isFinished) :
    ∃ p', l.process { s with core, batchSize := batch } = .ok p' ∧
      (core.cacheEntries ≤ 2 ^ 63 → ∃ order', (p'.advanceAll order').isFinished) ∧
      ∀ order', (p'.advanceAll order').isFinished →
        (p'.advanceAll order').exit = (p.advanceAll order).exit ∧
        (p'.advanceAll order').kernel = (p.advanceAll order).kernel ∧
        (p'.advanceAll order').memory = (p.advanceAll order).memory := by
  obtain ⟨m, kernel, registers, hm, hprocess⟩ := exists_spawn hp
  obtain ⟨hp', rfl⟩ := hprocess core batch
  refine ⟨_, hp', ?_⟩
  obtain ⟨hends, hsame⟩ := (ThreadGroup.solo_spawn s hm kernel registers).same_end
    ((ThreadGroup.sound_start s m kernel).turn (.spawn registers))
    (ThreadGroup.solo_spawn { s with core, batchSize := batch } hm kernel registers)
    ((ThreadGroup.sound_start _ m kernel).turn (.spawn registers)) rfl hbatch hend
  refine ⟨fun hsize ↦ hends (Core.placed_ofConfig hsize), fun order' hend' ↦ ?_⟩
  have hbare := hsame order' hend'
  have hkernel := congrArg ThreadGroup.kernel hbare
  have hmemory := congrArg ThreadGroup.memory hbare
  have hexit := congrArg ThreadGroup.exit hbare
  rw [ThreadGroup.exit_bare, ThreadGroup.exit_bare] at hexit
  exact ⟨hexit, hkernel, hmemory⟩

/-- A thread about to end its process with status 7: it loads the number of the call and the status,
and calls the host. -/
def exiting : Launch :=
  .inMemory (fun _ ↦ {}) 0
    [.act (.request 0 (.map 0x1000 0x1000 .readExecute .anonymous)),
      .act (.request 0 (.poke 0x1000 [0xb8, 231, 0, 0, 0, 0xbf, 7, 0, 0, 0, 0x0f, 0x05]))]
    { heap := ⟨0x5000, 0x5000, 0x5000⟩ } (.start 0x1000 0x2000)

/-- Two instructions a batch or one, from a cache or from blocks, the status is 7. -/
theorem outcome_eq_exiting :
    ∃ p p', exiting.process { batchSize := 2 } = .ok p ∧
      exiting.process { core := { cacheEntries := 0, hotThreshold := some 1 }, batchSize := 1 } =
        .ok p' ∧ 0 < 1 ∧
      (p.advanceAll (List.replicate 7 0)).isFinished ∧
      ∃ order', (p'.advanceAll order').isFinished ∧ (p'.advanceAll order').exit.status = 7 := by
  obtain ⟨p, hp⟩ : ∃ p, exiting.process { batchSize := 2 } = .ok p := ⟨_, rfl⟩
  have hend : (p.advanceAll (List.replicate 7 0)).isFinished := by
    obtain rfl := Except.ok.inj hp
    decide +kernel
  have hstatus : (p.advanceAll (List.replicate 7 0)).exit.status = 7 := by
    obtain rfl := Except.ok.inj hp
    decide +kernel
  obtain ⟨p', hp', hends, hsame⟩ := outcome_eq_of_settings exiting { batchSize := 2 }
    { cacheEntries := 0, hotThreshold := some 1 } Nat.one_pos hp hend
  obtain ⟨order', hend'⟩ := hends (Nat.zero_le _)
  obtain ⟨hexit, _, _⟩ := hsame order' hend'
  exact ⟨p, p', hp, hp', Nat.one_pos, hend, order', hend', by rw [hexit, hstatus]⟩

/-- With a decode cache for more than 2^63 instructions, which has no places, the thread panics in
its first batch, and the process comes to no end. -/
theorem not_outcome_eq_of_settings :
    ¬∀ (l : Launch) (s : Settings) (core : CoreConfig) (batch : Nat) (p : ThreadGroup)
      (order : List Nat), 0 < batch → l.process s = .ok p → (p.advanceAll order).isFinished →
      ∃ p', l.process { s with core, batchSize := batch } = .ok p' ∧
        (∃ order', (p'.advanceAll order').isFinished) ∧
        ∀ order', (p'.advanceAll order').isFinished →
          (p'.advanceAll order').exit = (p.advanceAll order).exit ∧
          (p'.advanceAll order').kernel = (p.advanceAll order).kernel ∧
          (p'.advanceAll order').memory = (p.advanceAll order).memory := by
  intro h
  let oversize : CoreConfig := { cacheEntries := 2 ^ 63 + 1 }
  obtain ⟨p, hp⟩ : ∃ p, exiting.process { batchSize := 2 } = .ok p := ⟨_, rfl⟩
  have hend : (p.advanceAll (List.replicate 7 0)).isFinished := by
    obtain rfl := Except.ok.inj hp
    decide +kernel
  obtain ⟨p', hp', ⟨order, hend'⟩, -⟩ := h exiting { batchSize := 2 } oversize 2 p _ Nat.two_pos hp
    hend
  obtain ⟨v, hsolo, hsound⟩ := exists_solo hp'
  have hone : p'.workers.length = 1 := by rw [hsolo.workers_eq, List.length_singleton]
  have hrounds := ThreadGroup.iterate_lap_of_isFinished hsound hone hend'
  have hlap : p'.lap.workers.map Worker.isPanicked = [true] := by
    obtain rfl := Except.ok.inj hp'
    decide +kernel
  obtain ⟨w, hnext, -⟩ := hsolo.exists_lap
  have hpanicked : w.isPanicked = true := by
    rw [hnext.workers_eq] at hlap
    exact List.singleton_inj.mp hlap
  rw [← hrounds] at hend'
  cases hcount : order.count 0 with
  | zero =>
    rw [hcount] at hend'
    obtain rfl := Except.ok.inj hp'
    exact absurd hend' (by decide +kernel)
  | succ n =>
    rw [hcount, Function.iterate_succ_apply] at hend'
    exact hnext.not_isFinished hpanicked n hend'

end Launch

end LongMode
