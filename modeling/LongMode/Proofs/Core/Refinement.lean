import LongMode.Proofs.Core.Atomicity
import LongMode.Proofs.Core.Coherence

/-!
Cache and blocks change how fast a core runs, not what it does. The reference is a core with
neither, whose runs are made of single steps (`Core.runStepwise`). A coherent core takes the same
steps (`Core.Run.Sound.advances_next`); a block runs the instructions that the reference finds one
by one, because it is left as soon as a store may have changed it (`Core.advances_runInstructions`).
A decode cache without places cuts a run short by a panic, somewhere on the way of the reference;
where it has places, steps and runs agree (`Core.step_map_bare`, `Core.run_map_bare`).
-/

set_option autoImplicit false
set_option relaxedAutoImplicit false

namespace LongMode

/-! ### What executions do to memory -/

namespace Thread

theorem memory_raise (t : Thread) (m : Memory) (fault : Fault) (a : Address) :
    (t.raise m fault a).memory = m := by
  unfold raise
  split
  · rfl
  · rfl

theorem memory_abandon (t : Thread) (m : Memory) (stop : Stop) (a : Address) :
    (t.abandon m stop a).memory = m := by
  cases stop with
  | fault fault => exact memory_raise t m fault a
  | panic p => rfl

theorem stored_execute (t : Thread) (m : Memory) (i : Instruction) :
    m.Stored (t.execute m i).memory := by
  have hstored := Machine.stored_execute
    { registers := t.registers, memory := m, retired := t.retired } i
  rw [execute]
  split
  · rename_i hexecute
    rw [hexecute] at hstored
    rw [memory_abandon]
    exact hstored
  · rename_i hexecute
    rw [hexecute] at hstored
    exact hstored

/-- An instruction that completes without a store leaves memory alone. -/
theorem memory_execute_of_no_store {t : Thread} {m : Memory} {i : Instruction}
    (hresult : (t.execute m i).result = .completed) (hwrites : (t.execute m i).writes = []) :
    (t.execute m i).memory = m := by
  rw [execute] at hresult hwrites ⊢
  split at hresult
  · rename_i stop after hexecute
    cases stop with
    | panic p => cases hresult
    | fault fault =>
      unfold abandon raise at hresult
      dsimp only at hresult
      split at hresult
      · cases hresult
      · cases hresult
  · rename_i done after hexecute
    rw [hexecute] at hwrites
    exact Machine.memory_execute_of_writes_eq rfl hexecute (Array.toList_eq_nil_iff.mp hwrites)

end Thread

namespace Core

/-- An attempt at an instruction does to memory what can be done by stores. -/
theorem stored_stepOne (c : Core) (t : Thread) (m : Memory) :
    m.Stored (c.stepOne t m).1.memory := by
  rw [stepOne]
  split
  · exact t.stored_execute m _
  · dsimp only
    rw [Thread.memory_raise]
    exact .refl m
  · exact .refl m
  · exact .refl m

/-! ### The reference -/

/-- Execute one instruction. -/
def Run.next (r : Run) : Run :=
  let (e, core) := r.core.stepOne r.thread r.memory
  { r with core }.extend e

/-- Execute one instruction after the other, up to the first that does not simply complete. -/
def stepwise : (budget : Nat) → Run → Run
  | 0, r => r
  | budget + 1, r =>
    match r.next.result with
    | .completed => stepwise budget r.next
    | _ => r.next

/-- A run that is made of steps. -/
def runStepwise (c : Core) (t : Thread) (m : Option Memory) (budget : Nat) :
    Except SchedulingError Run := do
  let m ← runnable t m
  return stepwise budget { core := c, thread := t, memory := m }

section Stepwise

variable {budget a b : Nat} {r : Run}

theorem stepwise_succ_of_completed (h : r.next.result = .completed) :
    stepwise (budget + 1) r = stepwise budget r.next := by
  rw [stepwise]
  simp only [h]

theorem stepwise_succ_of_ne (h : r.next.result ≠ .completed) :
    stepwise (budget + 1) r = r.next := by
  rw [stepwise]
  split
  · exact absurd ‹_› h
  · rfl

theorem stepwise_one (r : Run) : stepwise 1 r = r.next := by
  by_cases hnext : r.next.result = .completed
  · rw [stepwise_succ_of_completed hnext, stepwise]
  · rw [stepwise_succ_of_ne hnext]

theorem stored_stepwise (budget : Nat) (r : Run) :
    r.memory.Stored (stepwise budget r).memory := by
  induction budget generalizing r with
  | zero => exact .refl _
  | succ budget ih =>
    have hstored : r.memory.Stored r.next.memory := stored_stepOne r.core r.thread r.memory
    by_cases hnext : r.next.result = .completed
    · rw [stepwise_succ_of_completed hnext]
      exact hstored.trans (ih r.next)
    · rw [stepwise_succ_of_ne hnext]
      exact hstored

theorem stepwise_add (h : (stepwise a r).result = .completed) :
    stepwise (a + b) r = stepwise b (stepwise a r) := by
  induction a generalizing r with
  | zero => rw [Nat.zero_add, stepwise]
  | succ a ih =>
    by_cases hnext : r.next.result = .completed
    · rw [stepwise_succ_of_completed hnext] at h
      rw [Nat.succ_add, stepwise_succ_of_completed hnext, stepwise_succ_of_completed hnext]
      exact ih h
    · rw [stepwise_succ_of_ne hnext] at h
      exact absurd h hnext

/-- Once something other than completion happened, more budget does not matter. -/
theorem stepwise_of_ne (hstart : r.result = .completed) (h : (stepwise a r).result ≠ .completed)
    (hle : a ≤ b) : stepwise b r = stepwise a r := by
  induction a generalizing b r with
  | zero => exact absurd hstart h
  | succ a ih =>
    obtain ⟨b, rfl⟩ := Nat.exists_eq_succ_of_ne_zero (Nat.ne_zero_of_lt hle)
    by_cases hnext : r.next.result = .completed
    · rw [stepwise_succ_of_completed hnext] at h
      rw [stepwise_succ_of_completed hnext, stepwise_succ_of_completed hnext]
      exact ih hnext h (Nat.le_of_succ_le_succ hle)
    · rw [stepwise_succ_of_ne hnext, stepwise_succ_of_ne hnext]

end Stepwise

/-! ### One instruction -/

/-- A core without cache and blocks that describes instructions if another one does. -/
def bare (c : Core) : Core :=
  { tracing := c.tracing }

/-- A run without what its core remembers: what there is to see of it. -/
def Run.bare (r : Run) : Run :=
  { r with core := r.core.bare }

/-- The core of a run is coherent with its memory. -/
structure Run.Sound (r : Run) : Prop where
  coherent : r.core.Coherent r.memory.frames
  wellFormed : r.memory.WellFormed

/-- Single instructions leave alone the table of blocks, whether instructions are described, and the
places of the decode cache. -/
theorem blocks_stepOne (c : Core) (t : Thread) (m : Memory) :
    (c.stepOne t m).2.blocks = c.blocks ∧ (c.stepOne t m).2.tracing = c.tracing ∧
      (c.Placed → (c.stepOne t m).2.Placed) := by
  rw [core_stepOne]
  obtain ⟨hblocks, htracing⟩ := blocks_fetch c m t.registers.rip
  exact ⟨hblocks, htracing, fun h ↦ h.fetch m t.registers.rip⟩

/-- A core without tables does not come to have any. -/
theorem stepOne_bare (c : Core) (t : Thread) (m : Memory) :
    c.bare.stepOne t m = (interpret t m, c.bare) := by
  have hfetch : c.bare.fetch m t.registers.rip = (read m t.registers.rip, c.bare) := by
    rw [read, fetch, fetch, lookup, lookup]
    dsimp only [bare]
    split
    · rfl
    · split
      · rfl
      · rfl
  rw [interpret_eq, stepOne, hfetch]
  cases read m t.registers.rip with
  | ok i => rfl
  | error failure => cases failure <;> rfl

theorem Run.next_bare (r : Run) :
    r.bare.next = r.bare.extend (interpret r.thread r.memory) := by
  have hstep : r.bare.core.stepOne r.bare.thread r.bare.memory =
      (interpret r.thread r.memory, r.core.bare) := stepOne_bare r.core r.thread r.memory
  rw [next, hstep]
  rfl

theorem Run.executed_extend {r : Run} {e : Execution} (h : (r.extend e).result = .completed) :
    (r.extend e).executed = r.executed + 1 := by
  have hresult : e.result = .completed := h
  simp only [extend, hresult, if_true]

/-- A run that a panic cuts short where it is. -/
def Run.cut (r : Run) (p : Panic) : Run :=
  { r with result := .panicked p }

/-- A run has gone on as the reference does in some number of steps, or, if the decode cache has no
places, a panic has cut it short behind them. -/
structure Run.Advances (r after : Run) (steps : Nat) : Prop where
  sound : after.Sound
  placed : r.core.Placed → after.core.Placed
  bare_eq : after.bare = stepwise steps r.bare ∨ ¬r.core.Placed ∧
    (stepwise steps r.bare).result = .completed ∧ ∃ p, after.bare = (stepwise steps r.bare).cut p
  executed_eq : after.result = .completed → after.executed = r.executed + steps

namespace Run

variable {r mid after : Run}

theorem Advances.refl (h : r.Sound) : r.Advances r 0 :=
  ⟨h, id, .inl rfl, fun _ ↦ rfl⟩

/-- A run that goes on has not been cut short. -/
theorem Advances.bare_of_completed {steps : Nat} (h : r.Advances after steps)
    (hafter : after.result = .completed) : after.bare = stepwise steps r.bare := by
  obtain heq | ⟨-, -, p, hcut⟩ := h.bare_eq
  · exact heq
  · have hpanicked : after.result = .panicked p := congrArg Run.result hcut
    rw [hafter] at hpanicked
    cases hpanicked

/-- With places in the decode cache nothing cuts a run short. -/
theorem Advances.bare_of_placed {steps : Nat} (h : r.Advances after steps)
    (hplaced : r.core.Placed) : after.bare = stepwise steps r.bare :=
  h.bare_eq.resolve_right fun hcut ↦ hcut.1 hplaced

theorem Advances.trans {a b : Nat} (h : r.Advances mid a) (hmid : mid.result = .completed)
    (h' : mid.Advances after b) : r.Advances after (a + b) := by
  have hsame := h.bare_of_completed hmid
  have hbare : (stepwise a r.bare).result = .completed := by
    rw [← hsame]
    exact hmid
  refine ⟨h'.sound, h'.placed ∘ h.placed, ?_, fun hafter ↦ ?_⟩
  · rw [stepwise_add hbare, ← hsame]
    exact h'.bare_eq.imp id (And.imp_left (mt h.placed))
  · rw [h'.executed_eq hafter, h.executed_eq hmid, Nat.add_assoc]

/-- Outside the core nothing depends on the table of blocks. -/
theorem Advances.updateBlocks {steps : Nat} (h : r.Advances after steps)
    {f : BlockTable → BlockTable} (hf : ∀ table : BlockTable, table.Stems after.memory.frames →
      (f table).Stems after.memory.frames) : r.Advances (after.updateBlocks f) steps := by
  refine ⟨⟨⟨h.sound.coherent.cache, fun table htable ↦ ?_⟩, h.sound.wellFormed⟩, h.placed,
    h.bare_eq, h.executed_eq⟩
  obtain ⟨table', htable', rfl⟩ := Option.map_eq_some_iff.mp htable
  exact hf table' (h.sound.coherent.blocks table' htable')

/-- Taking up what the reference does with the next instruction is one step. -/
theorem Sound.advances_extend (h : r.Sound) {core : Core} (hcore : core.Coherent r.memory.frames)
    (hplaced : r.core.Placed → core.Placed) (htracing : core.tracing = r.core.tracing)
    {e : Execution} (he : e = interpret r.thread r.memory) :
    r.Advances ({ r with core }.extend e) 1 := by
  have hsucceeds := (stored_stepOne {} r.thread r.memory).succeeds h.wellFormed
  subst he
  refine ⟨⟨hcore.mono hsucceeds.evolves, hsucceeds.wellFormed⟩, hplaced, .inl ?_, executed_extend⟩
  have hbare : core.bare = r.core.bare := congrArg (fun tracing ↦ ({ tracing } : Core)) htracing
  rw [stepwise_one, next_bare, bare, bare, ← hbare]
  rfl

/-- A coherent core takes the step of the reference, unless a panic cuts it short. -/
theorem Sound.advances_next (h : r.Sound) (hresult : r.result = .completed) :
    ∃ steps ≤ 1, (r.next.result = .completed → steps = 1) ∧ r.Advances r.next steps := by
  obtain ⟨hcoherent, hexecution⟩ := coherent_stepOne h.coherent h.wellFormed r.thread
  obtain ⟨-, htracing, hplaced⟩ := blocks_stepOne r.core r.thread r.memory
  rw [next]
  generalize r.core.stepOne r.thread r.memory = outcome at hcoherent hexecution htracing hplaced
  obtain ⟨e, core⟩ := outcome
  obtain hexecution | ⟨hnone, p, hpanic⟩ := hexecution
  · exact ⟨1, Nat.le_refl 1, fun _ ↦ rfl,
      h.advances_extend hcoherent hplaced htracing hexecution⟩
  · obtain rfl : e = r.thread.panic r.memory p := hpanic
    have hbare : core.bare = r.core.bare := congrArg (fun tracing ↦ ({ tracing } : Core)) htracing
    have hcut : ({ r with core }.extend (r.thread.panic r.memory p)).bare = r.bare.cut p := by
      rw [bare, bare, ← hbare]
      simp only [extend, Thread.panic, cut, Bool.false_eq_true, if_false, Option.toList_none,
        List.nil_append, ite_self]
    refine ⟨0, Nat.zero_le 1, ?_, ⟨hcoherent, h.wellFormed⟩, hplaced,
      .inr ⟨hnone, hresult, p, hcut⟩, ?_⟩
    · intro hcompleted
      cases hcompleted
    · intro hcompleted
      cases hcompleted

end Run

/-! ### Blocks -/

/-- A block runs instructions that the reference finds one by one. -/
theorem advances_runInstructions {block : Block} (instructions : List Instruction) (budget : Nat)
    {r : Run} (hr : r.Sound) (hstems : block.Stems r.memory.frames)
    (hvalid : block.isValid r.memory = true) (hsub : ∀ i ∈ instructions, i ∈ block.instructions) :
    ∃ steps ≤ budget, r.Advances (runInstructions block instructions budget r) steps := by
  induction instructions generalizing budget r with
  | nil =>
    rw [runInstructions]
    exact ⟨0, Nat.zero_le _, .refl hr⟩
  | cons i rest ih =>
    cases budget with
    | zero => exact ⟨0, Nat.le_refl _, .refl hr⟩
    | succ budget =>
      rw [runInstructions]
      by_cases hrip : r.thread.registers.rip = i.address
      · rw [if_neg (not_not.mpr hrip)]
        dsimp only
        have hdecodes := hstems.decodes hvalid (hsub i List.mem_cons_self)
        have hone : r.Advances (r.extend (r.thread.execute r.memory i)) 1 :=
          hr.advances_extend hr.coherent id rfl (interpret_of_decodes hdecodes hrip).symm
        split
        · rename_i hcompleted
          split
          · refine ⟨1, Nat.le_add_left 1 budget, hone.updateBlocks fun table htable ↦ ?_⟩
            exact BlockTable.each_invalidate htable block.entry
          · rename_i hkept
            -- the block is still valid: it was looked at again, or nothing was stored
            have hvalid' : block.isValid (r.thread.execute r.memory i).memory = true := by
              cases hwrites : (r.thread.execute r.memory i).writes with
              | nil =>
                rw [Thread.memory_execute_of_no_store hcompleted hwrites]
                exact hvalid
              | cons write writes => simpa [hwrites] using hkept
            have hevolves := (r.thread.stored_execute r.memory i).evolves
            obtain ⟨steps, hle, hrest⟩ := ih budget hone.sound (hstems.mono hevolves) hvalid'
              fun i' hi' ↦ hsub i' (List.mem_cons_of_mem i hi')
            refine ⟨1 + steps, by omega, hone.trans hcompleted hrest⟩
        · exact ⟨1, Nat.le_add_left 1 budget, hone⟩
      · rw [if_pos hrip]
        exact ⟨0, Nat.zero_le _, .refl hr⟩

theorem advances_runBlock {block : Block} {r : Run} (hr : r.Sound)
    (hstems : block.Stems r.memory.frames) (hvalid : block.isValid r.memory = true)
    (budget : Nat) : ∃ steps ≤ budget, r.Advances (runBlock r block budget) steps := by
  obtain ⟨steps, hle, hadvances⟩ := advances_runInstructions block.instructions budget hr hstems
    hvalid fun _ hi ↦ hi
  exact ⟨steps, hle, hadvances.updateBlocks fun table htable ↦ htable⟩

/-- The block that is found at the instruction pointer holds what memory has. -/
theorem advances_blockAt {r : Run} (hr : r.Sound) :
    r.Advances (blockAt r).2 0 ∧ (blockAt r).2.memory = r.memory ∧
      (blockAt r).2.result = r.result ∧ ∀ block, (blockAt r).1 = some block →
        block.Stems r.memory.frames ∧ block.isValid r.memory = true := by
  rw [blockAt]
  cases hblocks : r.core.blocks with
  | none => exact ⟨.refl hr, rfl, rfl, fun block h ↦ by cases h⟩
  | some table =>
    obtain ⟨hstems, hfound⟩ := BlockTable.supplies_lookup (hr.coherent.blocks table hblocks)
      hr.wellFormed r.thread.registers.rip
    refine ⟨⟨⟨⟨hr.coherent.cache, fun table' h ↦ ?_⟩, hr.wellFormed⟩, id, .inl rfl, fun _ ↦ rfl⟩,
      rfl, rfl, hfound⟩
    rw [← Option.some.inj h]
    exact hstems

/-- Going on with a budget is no more steps of the reference than the budget, and at least one if
everything completes. -/
theorem advances_advance {r : Run} (hr : r.Sound) (hresult : r.result = .completed) {budget : Nat}
    (hbudget : 1 ≤ budget) :
    ∃ steps ≤ budget, ((advance r budget).result = .completed → 1 ≤ steps) ∧
      r.Advances (advance r budget) steps := by
  obtain ⟨hlookup, hmemory, hlookupResult, hfound⟩ := advances_blockAt hr
  have hcompleted : (blockAt r).2.result = .completed := hlookupResult.trans hresult
  -- a single instruction behind some number of steps
  have hsingle {mid : Run} (hmid : r.Advances mid 0) (hmidResult : mid.result = .completed) :
      ∃ steps ≤ budget, (mid.next.result = .completed → 1 ≤ steps) ∧
        r.Advances mid.next steps := by
    obtain ⟨steps, hle, hone, hnext⟩ := hmid.sound.advances_next hmidResult
    have hrun := hmid.trans hmidResult hnext
    rw [Nat.zero_add] at hrun
    exact ⟨steps, Nat.le_trans hle hbudget, fun h ↦ Nat.le_of_eq (hone h).symm, hrun⟩
  rw [advance]
  dsimp only
  split
  · rename_i found hblock
    rw [hblock] at hlookup hcompleted
    exact hsingle hlookup hcompleted
  · rename_i block found hblock
    rw [hblock] at hlookup hcompleted hmemory
    obtain ⟨hstems, hvalid⟩ := hfound block (congrArg Prod.fst hblock)
    dsimp only at hlookup hcompleted hmemory
    rw [← hmemory] at hstems hvalid
    obtain ⟨steps, hle, hblockRun⟩ := advances_runBlock hlookup.sound hstems hvalid budget
    have hrun := hlookup.trans hcompleted hblockRun
    rw [Nat.zero_add] at hrun
    have hexecuted : found.executed = r.executed := hlookup.executed_eq hcompleted
    split
    · rename_i hnothing
      obtain ⟨hafter, hsame⟩ := hnothing
      have hzero : steps = 0 := by
        have hcount := hrun.executed_eq hafter
        omega
      subst hzero
      exact hsingle hrun hafter
    · rename_i hsomething
      refine ⟨steps, hle, fun hafter ↦ Nat.one_le_iff_ne_zero.mpr fun hzero ↦ hsomething ?_, hrun⟩
      -- no step: the run is where it began
      subst hzero
      exact ⟨hafter, by rw [hblockRun.executed_eq hafter, Nat.add_zero]⟩

/-- Turns use up the budget, or end where the reference ends, unless a panic cuts them short. -/
theorem advances_runTurns {budget turns : Nat} {r : Run} (hr : r.Sound)
    (hresult : r.result = .completed) (hturns : budget ≤ r.executed + turns) :
    ∃ steps, r.Advances (runTurns budget turns r) steps ∧
      (r.core.Placed → (runTurns budget turns r).bare =
        stepwise (budget - r.executed) r.bare) := by
  induction turns generalizing r with
  | zero =>
    rw [Nat.add_zero] at hturns
    rw [runTurns, Nat.sub_eq_zero_of_le hturns]
    exact ⟨0, .refl hr, fun _ ↦ rfl⟩
  | succ turns ih =>
    rw [runTurns]
    by_cases hdone : budget ≤ r.executed
    · rw [if_pos hdone, Nat.sub_eq_zero_of_le hdone]
      exact ⟨0, .refl hr, fun _ ↦ rfl⟩
    · rw [if_neg hdone]
      dsimp only
      obtain ⟨steps, hle, hone, hadvances⟩ := advances_advance hr hresult
        (Nat.sub_pos_of_lt (Nat.lt_of_not_le hdone))
      generalize advance r (budget - r.executed) = after at hone hadvances ⊢
      split
      · rename_i hcompleted
        have hexecuted := hadvances.executed_eq hcompleted
        have hpos := hone hcompleted
        obtain ⟨more, hlater, hbare⟩ := ih hadvances.sound hcompleted (by omega)
        refine ⟨steps + more, hadvances.trans hcompleted hlater, fun hplaced ↦ ?_⟩
        have hsteps := hadvances.bare_of_completed hcompleted
        have hsplit : budget - r.executed = steps + (budget - after.executed) := by omega
        rw [hbare (hadvances.placed hplaced), hsteps, hsplit, stepwise_add]
        rw [← hsteps]
        exact hcompleted
      · rename_i hother
        refine ⟨steps, hadvances, fun hplaced ↦ ?_⟩
        have hsteps := hadvances.bare_of_placed hplaced
        rw [hsteps]
        refine (stepwise_of_ne (r := r.bare) hresult (fun h ↦ ?_) hle).symm
        rw [← hsteps] at h
        exact hother h

/-! ### Steps and runs -/

section Calls

variable {c : Core} {m : Memory} {t : Thread} {r : Run}

/-- A run that has gone on as the reference does has done to memory what the reference does. -/
theorem Run.Advances.succeeds {after : Run} {steps : Nat} (h : r.Advances after steps)
    (hm : r.memory.WellFormed) : r.memory.Succeeds after.memory := by
  have hstored := (stored_stepwise steps r.bare).succeeds hm
  obtain heq | ⟨-, -, p, hcut⟩ := h.bare_eq
  · rw [← heq] at hstored
    exact hstored
  · have hmemory : after.bare.memory = ((stepwise steps r.bare).cut p).memory := by rw [hcut]
    change after.memory = (stepwise steps r.bare).memory at hmemory
    rw [hmemory]
    exact hstored

/-- A run of a coherent core goes on as the reference does, unless a panic cuts it short. -/
theorem advances_run (hc : c.Coherent m.frames) (hm : m.WellFormed) {budget : Nat}
    (h : c.run t (some m) budget = .ok r) :
    ∃ steps, Run.Advances { core := c, thread := t, memory := m } r steps := by
  obtain ⟨-, m', hm', rfl⟩ := run_eq_ok.mp h
  obtain rfl := Option.some.inj hm'
  obtain ⟨steps, hadvances, -⟩ := advances_runTurns
    (r := { core := c, thread := t, memory := m }) ⟨hc, hm⟩ rfl (Nat.le_add_left budget 0)
  exact ⟨steps, hadvances⟩

/-- A step of a coherent core is that of the reference, unless a panic cuts it short. -/
theorem advances_step (hc : c.Coherent m.frames) (hm : m.WellFormed)
    (h : c.step t (some m) = .ok r) :
    ∃ steps, Run.Advances { core := c, thread := t, memory := m } r steps := by
  obtain ⟨-, m', hm', rfl⟩ := step_eq_ok.mp h
  obtain rfl := Option.some.inj hm'
  obtain ⟨steps, -, -, hadvances⟩ := Run.Sound.advances_next
    (r := { core := c, thread := t, memory := m }) ⟨hc, hm⟩ rfl
  exact ⟨steps, hadvances⟩

/-- A run of a coherent core with places in its decode cache is a run of the reference. -/
theorem run_map_bare (hc : c.Coherent m.frames) (hplaced : c.Placed) (hm : m.WellFormed)
    (t : Thread) (budget : Nat) :
    (c.run t (some m) budget).map Run.bare = runStepwise c.bare t (some m) budget := by
  obtain ⟨steps, -, hbare⟩ := advances_runTurns
    (r := { core := c, thread := t, memory := m }) ⟨hc, hm⟩ rfl (Nat.le_add_left budget 0)
  rw [run, runStepwise]
  cases hrunnable : runnable t (some m) with
  | error error => rfl
  | ok m' =>
    obtain rfl := Option.some.inj (runnable_eq_ok.mp hrunnable).2
    exact congrArg Except.ok (hbare hplaced)

/-- A step of a coherent core with places in its decode cache is a step of the reference. -/
theorem step_map_bare (hc : c.Coherent m.frames) (hplaced : c.Placed) (hm : m.WellFormed)
    (t : Thread) : (c.step t (some m)).map Run.bare = step c.bare t (some m) := by
  let r : Run := { core := c, thread := t, memory := m }
  have hnext : r.next.bare = r.bare.next := by
    obtain ⟨-, htracing, -⟩ := blocks_stepOne c t m
    have hbare : (c.stepOne t m).2.bare = c.bare :=
      congrArg (fun tracing ↦ ({ tracing } : Core)) htracing
    rw [Run.next_bare, ← stepOne_of_placed hc hm hplaced t, Run.bare, Run.bare, ← hbare]
    rfl
  rw [step, step]
  cases hrunnable : runnable t (some m) with
  | error error => rfl
  | ok m' =>
    obtain rfl := Option.some.inj (runnable_eq_ok.mp hrunnable).2
    exact congrArg Except.ok hnext

end Calls

end Core

end LongMode
