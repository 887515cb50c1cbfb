import LongMode.Proofs.Core.Refinement

/-!
Sessions. A thread is stepped and run on a core, in a machine whose memory changes meanwhile:
between two steps or runs there may be any requests to any address space, and new runs of shared
frames. What was remembered then is used only where it is still what memory holds, so a session on
any core is the session on a core that remembers nothing and runs step by step
(`Session.play_eq_stepwise`).
-/

set_option autoImplicit false
set_option relaxedAutoImplicit false

namespace LongMode

/-- A thread, the core that it runs on, and the memory of the machine. -/
structure Session where
  core : Core
  thread : Thread
  world : World

/-- Something that is done in a session. -/
inductive Command where
  /-- One instruction is executed. -/
  | step
  /-- As many instructions are executed as a budget allows. -/
  | run (budget : Nat)
  /-- The core forgets what it remembers. -/
  | flush
  /-- The host changes the thread: it answers a call, or takes a fault from the queue. -/
  | host (f : Thread → Thread)
  /-- Something happens to memory. -/
  | act (action : Action)

/-- What a command is answered with. -/
inductive Report where
  /-- What became of a step. -/
  | stepped (result : StepResult)
  /-- How many instructions a run completed, and what became of the last one. -/
  | ran (executed : Nat) (result : StepResult)
  /-- The thread cannot be run. -/
  | rejected (error : SchedulingError)
  /-- The answer of memory. -/
  | answered (answer : Answer)
  /-- There is nothing to say. -/
  | quiet

/-- A way to run a thread on a core. -/
abbrev Runner : Type :=
  Core → Thread → Option Memory → Nat → Except SchedulingError Core.Run

namespace Session

/-- Go on after a step or a run in address space `k`. -/
def resume (k : Nat) (s : Session) (report : Core.Run → Report) :
    Except SchedulingError Core.Run → Report × Session
  | .ok r => (report r, { core := r.core, thread := r.thread, world := s.world.replace k r.memory })
  | .error error => (.rejected error, s)

/-- Carry out a command for a thread in address space `k`. -/
def perform (runner : Runner) (k : Nat) (s : Session) : Command → Report × Session
  | .step =>
    s.resume k (fun r ↦ .stepped r.result) (s.core.step s.thread (some (s.world.memory k)))
  | .run budget =>
    s.resume k (fun r ↦ .ran r.executed r.result)
      (runner s.core s.thread (some (s.world.memory k)) budget)
  | .flush => (.quiet, { s with core := s.core.flush })
  | .host f => (.quiet, { s with thread := f s.thread })
  | .act action =>
    let (answer, world) := s.world.step action
    (.answered answer, { s with world })

/-- Carry out commands, and collect the answers. -/
def play (runner : Runner) (k : Nat) : Session → List Command → List Report × Session
  | s, [] => ([], s)
  | s, command :: commands =>
    let (report, s) := s.perform runner k command
    let (reports, s) := play runner k s commands
    (report :: reports, s)

/-! ### What a core may remember -/

/-- What a core remembers stems from memory that the machine has had. -/
structure Coherent (s : Session) : Prop where
  core : s.core.Coherent s.world.frames
  world : s.world.WellFormed

variable {s reference : Session}

/-- The run of the core of a session in address space `k` that has not begun. -/
def origin (s : Session) (k : Nat) : Core.Run where
  core := s.core
  thread := s.thread
  memory := s.world.memory k

theorem Coherent.resume (h : s.Coherent) (k : Nat) {report : Core.Run → Report}
    {outcome : Except SchedulingError Core.Run}
    (houtcome : ∀ r, outcome = .ok r → ∃ steps, (s.origin k).Advances r steps) :
    (s.resume k report outcome).2.Coherent ∧
      (s.core.Placed → (s.resume k report outcome).2.core.Placed) := by
  cases outcome with
  | error error => exact ⟨h, id⟩
  | ok r =>
    obtain ⟨steps, hadvances⟩ := houtcome r rfl
    have hsucceeds := hadvances.succeeds (h.world.memory k)
    exact ⟨⟨hadvances.sound.coherent, h.world.replace hsucceeds⟩, hadvances.placed⟩

/-- Whatever is done in a session, what its core remembers stems from memory, and its decode cache
does not lose its places. -/
theorem Coherent.perform (h : s.Coherent) (k : Nat) (command : Command) :
    (s.perform Core.run k command).2.Coherent ∧
      (s.core.Placed → (s.perform Core.run k command).2.core.Placed) := by
  have hm := h.world.memory k
  cases command with
  | step => exact h.resume k fun r hr ↦ Core.advances_step h.core hm hr
  | run budget => exact h.resume k fun r hr ↦ Core.advances_run h.core hm hr
  | flush => exact ⟨⟨Core.coherent_flush s.core _, h.world⟩, fun hplaced ↦ hplaced.flush⟩
  | host f => exact ⟨⟨h.core, h.world⟩, id⟩
  | act action =>
    obtain ⟨hwellFormed, hevolves⟩ := h.world.step action
    exact ⟨⟨h.core.mono hevolves, hwellFormed⟩, id⟩

theorem Coherent.play (h : s.Coherent) (k : Nat) (commands : List Command) :
    (s.play Core.run k commands).2.Coherent ∧
      (s.core.Placed → (s.play Core.run k commands).2.core.Placed) := by
  induction commands generalizing s with
  | nil => exact ⟨h, id⟩
  | cons command commands ih =>
    obtain ⟨hnext, hplaced⟩ := h.perform k command
    obtain ⟨hlast, hplaced'⟩ := ih hnext
    exact ⟨hlast, hplaced' ∘ hplaced⟩

/-- The session of a core with empty tables, after any history of memory. -/
theorem coherent_start (config : CoreConfig) (windows : Nat → MapWindow) (history : List Action)
    (t : Thread) : Coherent ⟨.ofConfig config, t, (World.start windows).after history⟩ :=
  ⟨Core.coherent_ofConfig config _, World.wellFormed_after windows history⟩

/-- What a core remembers in a session stems from memory of the machine. Its decode cache has places
if it is for at most 2^63 instructions. -/
theorem coherent_play (config : CoreConfig) (windows : Nat → MapWindow) (history : List Action)
    (k : Nat) (t : Thread) (commands : List Command) :
    let s := (Session.play Core.run k
      ⟨.ofConfig config, t, (World.start windows).after history⟩ commands).2
    s.Coherent ∧ (config.cacheEntries ≤ 2 ^ 63 → s.core.Placed) := by
  intro s
  obtain ⟨hcoherent, hplaced⟩ := (coherent_start config windows history t).play k commands
  exact ⟨hcoherent, fun hsize ↦ hplaced (Core.placed_ofConfig hsize)⟩

/-! ### The reference -/

/-- Two sessions differ in what their cores remember only: the second core remembers nothing. -/
structure Mirrors (s reference : Session) : Prop where
  core_eq : reference.core = s.core.bare
  thread_eq : reference.thread = s.thread
  world_eq : reference.world = s.world

theorem Mirrors.resume (h : s.Mirrors reference) (k : Nat) {report : Core.Run → Report}
    (hreport : ∀ r : Core.Run, report r.bare = report r)
    {outcome outcome' : Except SchedulingError Core.Run}
    (houtcome : outcome.map Core.Run.bare = outcome') :
    (s.resume k report outcome).1 = (reference.resume k report outcome').1 ∧
      (s.resume k report outcome).2.Mirrors (reference.resume k report outcome').2 := by
  rw [← houtcome]
  cases outcome with
  | error error => exact ⟨rfl, h⟩
  | ok r =>
    refine ⟨(hreport r).symm, rfl, rfl, ?_⟩
    change reference.world.replace k r.memory = s.world.replace k r.memory
    rw [h.world_eq]

/-- A command is answered in the same way, and sessions stay alike. -/
theorem Mirrors.perform (h : s.Mirrors reference) (hs : s.Coherent) (hplaced : s.core.Placed)
    (k : Nat) (command : Command) :
    (s.perform Core.run k command).1 = (reference.perform Core.runStepwise k command).1 ∧
      (s.perform Core.run k command).2.Mirrors
        (reference.perform Core.runStepwise k command).2 := by
  have hm := hs.world.memory k
  cases command with
  | step =>
    simp only [Session.perform, h.core_eq, h.thread_eq, h.world_eq]
    exact h.resume k (fun _ ↦ rfl) (Core.step_map_bare hs.core hplaced hm s.thread)
  | run budget =>
    simp only [Session.perform, h.core_eq, h.thread_eq, h.world_eq]
    exact h.resume k (fun _ ↦ rfl) (Core.run_map_bare hs.core hplaced hm s.thread budget)
  | flush =>
    refine ⟨rfl, ?_, h.thread_eq, h.world_eq⟩
    change reference.core.flush = s.core.bare
    rw [h.core_eq]
    rfl
  | host f => exact ⟨rfl, h.core_eq, congrArg f h.thread_eq, h.world_eq⟩
  | act action =>
    refine ⟨?_, h.core_eq, h.thread_eq, ?_⟩
    · change Report.answered (s.world.step action).1 = .answered (reference.world.step action).1
      rw [h.world_eq]
    · change (reference.world.step action).2 = (s.world.step action).2
      rw [h.world_eq]

theorem Mirrors.play (h : s.Mirrors reference) (hs : s.Coherent) (hplaced : s.core.Placed)
    (k : Nat) (commands : List Command) :
    (s.play Core.run k commands).1 = (reference.play Core.runStepwise k commands).1 ∧
      (s.play Core.run k commands).2.Mirrors
        (reference.play Core.runStepwise k commands).2 := by
  induction commands generalizing s reference with
  | nil => exact ⟨rfl, h⟩
  | cons command commands ih =>
    obtain ⟨hreport, hnext⟩ := h.perform hs hplaced k command
    obtain ⟨hcoherent, hstays⟩ := hs.perform k command
    obtain ⟨hreports, hlast⟩ := ih hnext hcoherent (hstays hplaced)
    exact ⟨congrArg₂ List.cons hreport hreports, hlast⟩

/-- However a core was set up, as long as its decode cache is for at most 2^63 instructions, a
session on it is a session on a core without cache and blocks whose runs are made of steps: all
answers are the same, and so are the thread, with its registers, its count of completed
instructions, its queue of faults and its reason to have ended, and all of memory at the end. Code
that was changed, by the thread itself or by others, through whatever mapping, is executed as
changed from the next instruction on. -/
theorem play_eq_stepwise (config : CoreConfig) (hsize : config.cacheEntries ≤ 2 ^ 63)
    (windows : Nat → MapWindow) (history : List Action) (k : Nat) (t : Thread)
    (commands : List Command) :
    let w := (World.start windows).after history
    let played := Session.play Core.run k ⟨.ofConfig config, t, w⟩ commands
    let reference := Session.play Core.runStepwise k ⟨.ofConfig .interpreterOnly, t, w⟩ commands
    played.1 = reference.1 ∧ played.2.thread = reference.2.thread ∧
      played.2.world = reference.2.world := by
  intro w played reference
  have hstart : Mirrors ⟨.ofConfig config, t, w⟩ ⟨.ofConfig .interpreterOnly, t, w⟩ :=
    ⟨rfl, rfl, rfl⟩
  obtain ⟨hreports, hlast⟩ := hstart.play (coherent_start config windows history t)
    (Core.placed_ofConfig hsize) k commands
  exact ⟨hreports, hlast.thread_eq.symm, hlast.world_eq.symm⟩

/-- Code that loads 1 into AL, stores 2 over the operand of that load, through another address of
the same frame, and jumps back. -/
def rewritingCode : List Action :=
  [.share 0x1000,
    .request 0 (.map 0x1000 0x1000 .readExecute (.shared 0)),
    .request 0 (.map 0x2000 0x1000 .readWrite (.shared 0)),
    .request 0 (.poke 0x1000 [0xb0, 0x01, 0xc6, 0x04, 0x25, 0x01, 0x20, 0x00, 0x00, 0x02,
      0xeb, 0xf4])]

/-- The second time round, the load that the core remembers is executed as it was changed. -/
theorem play_eq_stepwise_rewritingCode :
    let w := (World.start fun _ ↦ {}).after rewritingCode
    let t : Thread := { tid := 1, registers := .start 0x1000 0 }
    let played := Session.play Core.run 0 ⟨.ofConfig {}, t, w⟩ [.run 4]
    let reference := Session.play Core.runStepwise 0 ⟨.ofConfig .interpreterOnly, t, w⟩ [.run 4]
    (played.1 = reference.1 ∧ played.2.thread = reference.2.thread ∧
      played.2.world = reference.2.world) ∧ played.2.thread.registers.get 0 = 2 := by
  intro w t played reference
  have hal : reference.2.thread.registers.get 0 = 2 := by decide +kernel
  have hsame := play_eq_stepwise {} (by decide) (fun _ ↦ {}) rewritingCode 0 t [.run 4]
  refine ⟨hsame, ?_⟩
  rw [← hal]
  exact congrArg (fun t : Thread ↦ t.registers.get 0) hsame.2.1

/-- With a decode cache for more than 2^63 instructions, which has no places, the first step is a
panic and completes nothing. -/
theorem not_play_eq_stepwise :
    ¬∀ (config : CoreConfig) (windows : Nat → MapWindow) (history : List Action) (k : Nat)
      (t : Thread) (commands : List Command),
      let w := (World.start windows).after history
      let played := Session.play Core.run k ⟨.ofConfig config, t, w⟩ commands
      let reference := Session.play Core.runStepwise k ⟨.ofConfig .interpreterOnly, t, w⟩ commands
      played.1 = reference.1 ∧ played.2.thread = reference.2.thread ∧
        played.2.world = reference.2.world := by
  intro h
  have hthread := (h { cacheEntries := 2 ^ 63 + 1 } (fun _ ↦ {}) rewritingCode 0
    { tid := 1, registers := .start 0x1000 0 } [.step]).2.1
  exact absurd (congrArg Thread.retired hthread) (by decide +kernel)

end Session

end LongMode
