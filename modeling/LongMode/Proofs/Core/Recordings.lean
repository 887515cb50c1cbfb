import LongMode.Proofs.Core.Refinement
import LongMode.Proofs.Core.Replay

/-!
Recordings. A thread is stepped and run on a core that describes what it completes, and nothing else
happens meanwhile. Whatever the core remembers, and however the instructions are cut into steps and
runs, there is one description for each completed instruction, and after any number of them the
registers and all bytes of memory are what the descriptions say (`Recording.play_replays`).

The states in between are those of single instructions, taken one by one by a core without cache and
blocks (`Core.trail`). That descriptions tell this trail is `Core.Told`; each attempt at an
instruction keeps it (`Core.Told.attempt`), and so does each step and each run
(`Recording.Sound.call`).
-/

set_option autoImplicit false
set_option relaxedAutoImplicit false

namespace LongMode

namespace Core

/-- The thread and its memory after so many instructions, taken one by one by a core without cache
and blocks. -/
def trail (t : Thread) (m : Memory) : Nat → Thread × Memory
  | 0 => (t, m)
  | n + 1 =>
    let (t, m) := trail t m n
    let e := interpret t m
    (e.thread, e.memory)

/-- The instruction at the instruction pointer completes and is described, or it fails. -/
theorem retires_or_fails (t : Thread) (m : Memory) :
    (∃ event, (interpret t m).Retires t m event) ∨ (interpret t m).Fails t m := by
  have hdecoded : Decoded {} := fun cache hcache ↦ (nomatch hcache)
  rw [interpret_eq]
  cases hread : read m t.registers.rip with
  | ok i =>
    obtain ⟨haddress, htrades⟩ := (decoded_fetch hdecoded m t.registers.rip).2 i hread
    exact t.retires_or_fails_execute m htrades haddress
  | error failure =>
    cases failure with
    | fault fault => exact .inr (t.fails_raise m _ _)
    | decode error bytes => exact .inr (t.fails_haltOnDecode m _ _ _)
    | panic p => exact .inr (t.fails_panic m p)

/-- Akin threads do the same with the instruction at the instruction pointer. -/
theorem akin_interpret {t t' : Thread} (h : t.Akin t') (m : Memory) :
    (interpret t m).thread.Akin (interpret t' m).thread ∧
      (interpret t' m).memory = (interpret t m).memory := by
  rw [interpret_eq, interpret_eq, h.registers_eq]
  cases read m t.registers.rip with
  | ok i => exact h.execute m i
  | error failure =>
    cases failure with
    | fault fault =>
      have hfails := t.fails_raise m (.memory fault) t.registers.rip
      have hfails' := t'.fails_raise m (.memory fault) t.registers.rip
      exact ⟨hfails.akin.symm.trans (h.trans hfails'.akin), rfl⟩
    | decode error bytes =>
      have hfails := t.fails_haltOnDecode m t.registers.rip bytes error
      have hfails' := t'.fails_haltOnDecode m t.registers.rip bytes error
      exact ⟨hfails.akin.symm.trans (h.trans hfails'.akin), rfl⟩
    | panic p => exact ⟨h, rfl⟩

/-! ### What descriptions tell -/

/-- Descriptions tell the trail of a thread up to some moment: there is one for each instruction,
and following some of them leads to where so many instructions lead. -/
structure Told (t : Thread) (m : Memory) (events : List TraceEvent) (t' : Thread) (m' : Memory) :
    Prop where
  akin : (trail t m events.length).1.Akin t'
  memory_eq : m' = (trail t m events.length).2
  tid_eq : t'.tid = t.tid
  retired_eq (n : Nat) : n ≤ events.length → (trail t m n).1.retired = t.retired + n
  event (n : Nat) (event : TraceEvent) : events[n]? = some event →
    event.tid = t.tid ∧ event.sequence = t.retired + n ∧
      event.instruction.address = (trail t m n).1.registers.rip
  replay (s : Memory) (n : Nat) : s.Mimics m → n ≤ events.length →
    ∃ memory, replayAll? (t.registers.seen, s) (events.take n) =
        some ((trail t m n).1.registers.seen, memory) ∧ memory.Mimics (trail t m n).2

namespace Told

variable {t t' : Thread} {m m' : Memory} {events : List TraceEvent}

theorem refl (t : Thread) (m : Memory) : Told t m [] t m := by
  refine ⟨.refl t, rfl, rfl, fun n hn ↦ ?_, by simp, fun s n hs hn ↦ ?_⟩
  · rw [Nat.le_zero.mp hn]
    rfl
  · rw [Nat.le_zero.mp hn]
    exact ⟨s, rfl, hs⟩

/-- One more instruction is completed and described. -/
theorem retire (h : Told t m events t' m') {event : TraceEvent}
    (hretires : (interpret t' m').Retires t' m' event) :
    Told t m (events ++ [event]) (interpret t' m').thread (interpret t' m').memory := by
  have hlength : (events ++ [event]).length = events.length + 1 := by simp
  obtain ⟨hakin, hmemory⟩ := akin_interpret h.akin m'
  have hlast : trail t m (events.length + 1) =
      ((interpret (trail t m events.length).1 m').thread,
        (interpret (trail t m events.length).1 m').memory) := by
    rw [h.memory_eq]
    rfl
  have hretired : t'.retired = t.retired + events.length := by
    rw [h.akin.retired_eq, h.retired_eq _ (Nat.le_refl _)]
  refine ⟨?_, ?_, ?_, fun n hn ↦ ?_, fun n other hother ↦ ?_, fun s n hs hn ↦ ?_⟩
  · rw [hlength, hlast]
    exact hakin
  · rw [hlength, hlast]
    exact hmemory
  · rw [hretires.thread_eq]
    exact h.tid_eq
  · rw [hlength] at hn
    rcases Nat.le_add_one_iff.mp hn with hn | rfl
    · exact h.retired_eq n hn
    · have hnext := congrArg Thread.retired hretires.thread_eq
      rw [hlast, ← hakin.retired_eq, hnext, Thread.retire, hretired, Nat.add_assoc]
  · rw [List.getElem?_append] at hother
    split at hother
    · exact h.event n other hother
    · rename_i hn
      obtain ⟨hzero, rfl⟩ : n - events.length = 0 ∧ event = other := by
        rw [List.getElem?_singleton] at hother
        split at hother
        · exact ⟨‹_›, Option.some.inj hother⟩
        · nomatch hother
      obtain rfl : n = events.length := by omega
      refine ⟨hretires.tid_eq.trans h.tid_eq, hretires.sequence_eq.trans hretired, ?_⟩
      rw [hretires.address_eq, h.akin.registers_eq]
  · rw [hlength] at hn
    rcases Nat.le_add_one_iff.mp hn with hn | rfl
    · rw [List.take_append_of_le_length hn]
      exact h.replay s n hs hn
    · obtain ⟨memory, hpast, hmimics⟩ := h.replay s events.length hs (Nat.le_refl _)
      rw [List.take_length] at hpast
      rw [← h.memory_eq] at hmimics
      obtain ⟨hone, hafter⟩ := hretires.replay memory hmimics
      refine ⟨memory.replay event.writes, ?_, ?_⟩
      · have hall : (events ++ [event]).take (events.length + 1) = events ++ [event] :=
          List.take_of_length_le (Nat.le_of_eq hlength)
        rw [hall, hlast, replayAll?_append, hpast, Option.bind_some, ← h.akin.registers_eq,
          ← hakin.registers_eq, replayAll?, List.foldlM_cons, hone]
        rfl
      · rw [hlast, ← hmemory]
        exact hafter

/-- What descriptions tell is not changed by an attempt that fails. -/
theorem fail (h : Told t m events t' m') (hfails : (interpret t' m').Fails t' m') :
    Told t m events (interpret t' m').thread (interpret t' m').memory :=
  ⟨h.akin.trans hfails.akin, hfails.memory_eq.trans h.memory_eq,
    hfails.akin.tid_eq.trans h.tid_eq, h.retired_eq, h.event, h.replay⟩

/-- An attempt adds a description exactly if it completes an instruction. -/
theorem attempt (h : Told t m events t' m') :
    Told t m (events ++ (interpret t' m').event.toList) (interpret t' m').thread
      (interpret t' m').memory := by
  rcases retires_or_fails t' m' with ⟨event, hretires⟩ | hfails
  · rw [hretires.event_eq]
    exact h.retire hretires
  · rw [hfails.event_eq, Option.toList_none, List.append_nil]
    exact h.fail hfails

/-- So does a run that is made of steps. -/
theorem stepwise {r : Run} {past : List TraceEvent} (hcore : r.core = { tracing := true })
    (h : Told t m (past ++ r.events.reverse) r.thread r.memory) (budget : Nat) :
    (Core.stepwise budget r).core = { tracing := true } ∧
      Told t m (past ++ (Core.stepwise budget r).events.reverse) (Core.stepwise budget r).thread
        (Core.stepwise budget r).memory := by
  induction budget generalizing r with
  | zero => exact ⟨hcore, h⟩
  | succ budget ih =>
    have hbare : r.bare = r := by
      rw [Run.bare, hcore, Core.bare, ← hcore]
    have hnext : r.next = r.extend (interpret r.thread r.memory) := by
      have hnext := r.next_bare
      rwa [hbare] at hnext
    have hcoreNext : r.next.core = { tracing := true } := by
      rw [hnext]
      exact hcore
    have htold : Told t m (past ++ r.next.events.reverse) r.next.thread r.next.memory := by
      have hevents : r.next.events = (interpret r.thread r.memory).event.toList ++ r.events := by
        rw [hnext, Run.extend]
        simp only [hcore, if_true]
      have hone := h.attempt
      rw [hevents, hnext, List.reverse_append, ← List.append_assoc]
      cases hevent : (interpret r.thread r.memory).event with
      | none =>
        rw [hevent] at hone
        exact hone
      | some event =>
        rw [hevent] at hone
        exact hone
    by_cases hresult : r.next.result = .completed
    · rw [stepwise_succ_of_completed hresult]
      exact ih hcoreNext htold
    · rw [stepwise_succ_of_ne hresult]
      exact ⟨hcoreNext, htold⟩

end Told

end Core

/-! ### Recordings -/

/-- A thread, the core that it runs on and its memory, with the descriptions so far. -/
structure Recording where
  core : Core
  thread : Thread
  memory : Memory
  events : List TraceEvent := []

namespace Recording

/-- A way to use a core. -/
inductive Call where
  /-- One instruction is executed. -/
  | step
  /-- As many instructions are executed as a budget allows. -/
  | run (budget : Nat)

/-- A thread in its memory, on a new core that describes what it completes. -/
def start (config : CoreConfig) (t : Thread) (m : Memory) : Recording where
  core := { Core.ofConfig config with tracing := true }
  thread := t
  memory := m

/-- Go on after a step or a run. -/
def resume (r : Recording) : Except SchedulingError Core.Run → Recording
  | .ok run =>
    { core := run.core, thread := run.thread, memory := run.memory
      events := r.events ++ run.events.reverse }
  | .error _ => r

/-- Use the core once. -/
def call (r : Recording) : Call → Recording
  | .step => r.resume (r.core.step r.thread (some r.memory))
  | .run budget => r.resume (r.core.run r.thread (some r.memory) budget)

/-- Use the core again and again. -/
def play (r : Recording) (calls : List Call) : Recording :=
  calls.foldl call r

/-- A recording that tells the trail of a thread, and whose core can go on. -/
structure Sound (t : Thread) (m : Memory) (r : Recording) : Prop where
  tracing : r.core.tracing = true
  coherent : r.core.Coherent r.memory.frames
  wellFormed : r.memory.WellFormed
  told : Core.Told t m r.events r.thread r.memory

variable {t : Thread} {m : Memory} {r : Recording}

theorem sound_start (config : CoreConfig) (t : Thread) (hm : m.WellFormed) :
    Sound t m (start config t m) := by
  have hcoherent := Core.coherent_ofConfig config m.frames
  exact ⟨rfl, ⟨hcoherent.cache, hcoherent.blocks⟩, hm, .refl t m⟩

/-- What a core does is told if it goes on as a core without cache and blocks does step by step, and
a panic that cuts it short adds nothing to that. -/
theorem Sound.resume (h : r.Sound t m) {outcome : Except SchedulingError Core.Run}
    (houtcome : ∀ run, outcome = .ok run → ∃ steps, Core.Run.Advances
      { core := r.core, thread := r.thread, memory := r.memory } run steps) :
    (r.resume outcome).Sound t m := by
  cases outcome with
  | error error => exact h
  | ok run =>
    obtain ⟨steps, hadvances⟩ := houtcome run rfl
    have hstart : Core.Told t m (r.events ++ ([] : List TraceEvent).reverse) r.thread r.memory := by
      rw [List.reverse_nil, List.append_nil]
      exact h.told
    have hcore : r.core.bare = { tracing := true } := by
      rw [Core.bare, h.tracing]
    have htold := Core.Told.stepwise
      (r := Core.Run.bare { core := r.core, thread := r.thread, memory := r.memory }) hcore hstart
      steps
    have hrun : run.bare.core = { tracing := true } ∧
        Core.Told t m (r.events ++ run.bare.events.reverse) run.bare.thread run.bare.memory := by
      obtain hbare | ⟨-, -, p, hbare⟩ := hadvances.bare_eq
      · rw [hbare]
        exact htold
      · rw [hbare]
        exact htold
    exact ⟨congrArg Core.tracing hrun.1, hadvances.sound.coherent, hadvances.sound.wellFormed,
      hrun.2⟩

theorem Sound.call (h : r.Sound t m) (call : Call) : (r.call call).Sound t m := by
  cases call with
  | step => exact h.resume fun run hrun ↦ Core.advances_step h.coherent h.wellFormed hrun
  | run budget => exact h.resume fun run hrun ↦ Core.advances_run h.coherent h.wellFormed hrun

theorem Sound.play (h : r.Sound t m) (calls : List Call) : (r.play calls).Sound t m := by
  induction calls generalizing r with
  | nil => exact h
  | cons call calls ih => exact ih (h.call call)

/-- However a core was set up, and however it is used, it gives one description for each instruction
that it completes, with the count of instructions completed before and the address that the
instruction pointer had. After any number of instructions, the registers and all bytes of memory are
those to which the descriptions of these instructions lead from the first registers and a snapshot
of the first memory with the same aliases, and every change that they speak of finds the old value
that they give. -/
theorem play_replays (config : CoreConfig) (windows : Nat → MapWindow) (history : List Action)
    (k : Nat) (t : Thread) (calls : List Call) (snapshot : Memory)
    (hsnapshot : snapshot.Mimics (((World.start windows).after history).memory k)) :
    let m := ((World.start windows).after history).memory k
    let r := (start config t m).play calls
    (r.thread.retired = t.retired + r.events.length ∧
      r.thread.registers = (Core.trail t m r.events.length).1.registers ∧
      r.memory = (Core.trail t m r.events.length).2) ∧
    (∀ n event, r.events[n]? = some event → event.tid = t.tid ∧
      event.sequence = (Core.trail t m n).1.retired ∧
      event.instruction.address = (Core.trail t m n).1.registers.rip) ∧
    ∀ n ≤ r.events.length, (Core.trail t m n).1.retired = t.retired + n ∧
      ∃ memory, replayAll? (t.registers.seen, snapshot) (r.events.take n) =
          some ((Core.trail t m n).1.registers.seen, memory) ∧
        ∀ a, memory.byte a = (Core.trail t m n).2.byte a := by
  intro m r
  have hm : m.WellFormed := (World.wellFormed_after windows history).memory k
  have htold : Core.Told t m r.events r.thread r.memory := ((sound_start config t hm).play calls).told
  refine ⟨⟨?_, htold.akin.registers_eq, htold.memory_eq⟩, fun n event hevent ↦ ?_, fun n hn ↦ ?_⟩
  · rw [htold.akin.retired_eq, htold.retired_eq _ (Nat.le_refl _)]
  · obtain ⟨htid, hsequence, haddress⟩ := htold.event n event hevent
    have hn : n < r.events.length := (List.getElem?_eq_some_iff.mp hevent).1
    exact ⟨htid, hsequence.trans (htold.retired_eq n (Nat.le_of_lt hn)).symm, haddress⟩
  · obtain ⟨memory, hreplay, hmimics⟩ := htold.replay snapshot n hsnapshot hn
    exact ⟨htold.retired_eq n hn, memory, hreplay, hmimics.byte⟩

/-- Code that stores the byte 7 at the address 0x2000 and loads a byte from the address 0x3000. Both
are addresses of one frame. -/
def aliasedCode : List Action :=
  [.request 0 (.map 0x1000 0x1000 .readExecute .anonymous),
    .request 0 (.poke 0x1000 [0xc6, 0x04, 0x25, 0x00, 0x20, 0x00, 0x00, 0x07,
      0x8a, 0x04, 0x25, 0x00, 0x30, 0x00, 0x00]),
    .share 0x1000,
    .request 0 (.map 0x2000 0x1000 .readWrite (.shared 0)),
    .request 0 (.map 0x3000 0x1000 .readWrite (.shared 0))]

/-- Following the store at the one address is enough to have the byte at the other. -/
theorem replay_aliasedCode :
    let m := ((World.start fun _ ↦ {}).after aliasedCode).memory 0
    let t : Thread := { tid := 1, registers := .start 0x1000 0 }
    let r := (start {} t m).play [.run 1, .step]
    ∃ memory, replayAll? (t.registers.seen, m) r.events = some (r.thread.registers.seen, memory) ∧
      memory.byte 0x3000 = 7 := by
  intro m t r
  have hlength : r.events.length = 2 := by decide +kernel
  have hbyte : (Core.trail t m 2).2.byte 0x3000 = 7 := by decide +kernel
  obtain ⟨⟨_, hregisters, _⟩, _, hreplay⟩ := play_replays {} (fun _ ↦ {}) aliasedCode 0 t
    [.run 1, .step] m (.refl m)
  obtain ⟨_, memory, hall, hbytes⟩ := hreplay r.events.length (Nat.le_refl _)
  rw [List.take_length, ← hregisters] at hall
  refine ⟨memory, hall, ?_⟩
  rw [hbytes]
  exact (congrArg (fun n ↦ (Core.trail t m n).2.byte 0x3000) hlength).trans hbyte

end Recording

end LongMode
