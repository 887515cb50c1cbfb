import LongMode.Proofs.Core.Attempts
import LongMode.Proofs.Linux.Calls
import LongMode.ThreadGroup.Basic

/-!
Processes whose threads take turns. A turn is a part of the round of one thread, or something that
the host does: it asks the process to end, or starts one more thread. Every order of turns is a list
(`ThreadGroup.play`).

What the turn of a thread can do is said once, by `Worker.Move`: where the thread is in its round
afterwards, whether and why it has ended, and with which status it asks the process to end, if it
does. `ThreadGroup.turned_turn` says that every turn of a process moves at most one thread, and
everything else about turns is read off the moves. `ThreadGroup.Sound` is what holds after every
list of turns (`ThreadGroup.sound_play`).
-/

set_option autoImplicit false
set_option relaxedAutoImplicit false

namespace LongMode

/-- Something that happens to a process. -/
inductive Turn where
  /-- A thread does the next part of its round. -/
  | advance (index : Nat)
  /-- The host asks the process to end with a status. -/
  | exitGroup (status : Int)
  /-- The host starts a thread. -/
  | spawn (registers : RegisterFile)

/-- Whether a turn starts a thread. -/
def Turn.isSpawn : Turn → Bool
  | .spawn _ => true
  | _ => false

namespace ThreadGroup

/-- A process before its first thread. -/
def start (settings : Settings) (memory : Memory) (kernel : Linux.Kernel) : ThreadGroup :=
  { settings, memory, kernel }

/-- One turn. -/
def turn (p : ThreadGroup) : Turn → ThreadGroup
  | .advance i => p.advance i
  | .exitGroup status => p.exitGroup status
  | .spawn registers => p.spawn registers

/-- Turns one after the other. -/
def play (p : ThreadGroup) (turns : List Turn) : ThreadGroup :=
  turns.foldl turn p

/-! ### Asking the process to end -/

/-- The status with which a thread asks its process to end when it deals with a result: that of the
call that ends the process, or, if faults are to end the process, that of the signal. -/
def resultExit? (p : ThreadGroup) (w : Worker) : StepResult → Option Int
  | .syscall r =>
    match (Linux.Caller.call { kernel := p.kernel, memory := p.memory, thread := w.thread } r).1 with
    | .exitProcess status => some status
    | _ => none
  | .faulted _ _ =>
    match p.settings.faultPolicy with
    | .killProcess => w.thread.pending.head?.map fun pending ↦ (pending.fault.signal.status : Int)
    | .haltThread => none
  | _ => none

/-- The status with which the process is asked to end in a turn, if it is. -/
def exit? (p : ThreadGroup) : Turn → Option Int
  | .advance i =>
    match p.workers[i]? with
    | some w =>
      match w.phase with
      | .stopped result => p.resultExit? w result
      | _ => none
    | none => none
  | .exitGroup status => some status
  | .spawn _ => none

/-- The statuses with which the process is asked to end in turns, in order. -/
def exits : ThreadGroup → List Turn → List Int
  | _, [] => []
  | p, turn :: turns => (p.exit? turn).toList ++ exits (p.turn turn) turns

/-- The process after it was asked to end, if it was. -/
def accept (p : ThreadGroup) : Option Int → ThreadGroup
  | some status => p.exitGroup status
  | none => p

theorem groupStatus_accept (p : ThreadGroup) (status : Option Int) :
    (p.accept status).groupStatus = (p.groupStatus <|> status.map lowStatus) := by
  cases status <;> cases hstatus : p.groupStatus <;> simp [accept, exitGroup, hstatus]

theorem exiting_accept (p : ThreadGroup) (status : Option Int) :
    (p.accept status).exiting = (p.exiting || status.isSome) := by
  cases status <;> simp [accept, exitGroup]

end ThreadGroup

/-! ### Moves of one thread -/

/-- What the turn of a thread in a process can make of it, and the status with which it asks the
process to end. -/
inductive Worker.Move (p : ThreadGroup) (w : Worker) : Option Int → Worker → Prop
  /-- It has ended, and has no more rounds. -/
  | leave (reason : HaltReason) : w.phase = .ready → w.thread.halted = some reason →
    Move p w none { w with phase := .finished }
  /-- It sees that the process is ending, and ends. -/
  | kill : w.phase = .ready → w.thread.halted = none → p.exiting = true →
    Move p w none { w with thread.halted := some .killed, phase := .finished }
  /-- It sees that the process goes on. -/
  | clear : w.phase = .ready → w.thread.halted = none → p.exiting = false →
    Move p w none { w with phase := .cleared }
  /-- It runs a batch. -/
  | batch (thread : Thread) (core : Core) (result : StepResult) : w.phase = .cleared →
    w.thread.Settles thread result → Move p w none { thread, core, phase := .stopped result }
  /-- It begins another round, with registers that a call may have changed. -/
  | resume (result : StepResult) (registers : RegisterFile) : w.phase = .stopped result →
    result.queued = [] → Move p w none { w with thread.registers := registers, phase := .ready }
  /-- It calls the host to end itself. -/
  | exit (request : SyscallRequest) (registers : RegisterFile) (status : Int) :
    w.phase = .stopped (.syscall request) →
    Move p w none
      { w with thread := { w.thread with registers, halted := some (.exited status) }
               phase := .ready }
  /-- It calls the host to end the process. -/
  | exitProcess (request : SyscallRequest) (registers : RegisterFile) (status : Int) :
    w.phase = .stopped (.syscall request) →
    Move p w (some status)
      { w with thread := { w.thread with registers, halted := some (.exited status) }
               phase := .ready }
  /-- It ends because of a fault, and with it the process if faults are to end that. -/
  | fail (fault : Fault) (a : Address) : w.phase = .stopped (.faulted fault a) →
    Move p w
      (match p.settings.faultPolicy with
        | .killProcess => some (fault.signal.status : Int)
        | .haltThread => none)
      { w with thread := { w.thread with pending := [], halted := some (.fault fault a) }
               phase := .ready }
  /-- A panic has cut its batch short, and it has no more rounds. -/
  | panic (cause : Panic) : w.phase = .stopped (.panicked cause) →
    Move p w none { w with phase := .panicked }

/-- What holds of a thread at each place in its round. -/
structure Worker.Sound (w : Worker) : Prop where
  cleared : w.phase = .cleared → w.thread.halted = none
  stopped (result : StepResult) : w.phase = .stopped result →
    w.thread.halted = result.haltReason? ∧ w.thread.pending = result.queued
  finished : w.phase = .finished → w.thread.halted.isSome
  pending : w.phase = .ready ∨ w.phase = .cleared → w.thread.pending = []

namespace ThreadGroup

variable {p : ThreadGroup} {i : Nat} {w : Worker}

theorem halt_of_running {reason : HaltReason} (h : w.thread.halted = none) :
    w.halt reason = { w with thread.halted := some reason } := by
  simp [Worker.halt, Thread.halt, Thread.isHalted, h, Except.toOption]

/-- What the first turn of a round makes of a thread. -/
theorem move_check (hphase : w.phase = .ready) : w.Move p none (p.check w) := by
  rw [check]
  cases hhalted : w.thread.halted with
  | some reason =>
    simp only [Thread.isHalted, hhalted, Option.isSome_some, if_true]
    exact .leave reason hphase hhalted
  | none =>
    simp only [Thread.isHalted, hhalted, Option.isSome_none, Bool.false_eq_true, if_false]
    cases hexiting : p.exiting with
    | true =>
      rw [halt_of_running hhalted]
      exact .kill hphase hhalted hexiting
    | false => exact .clear hphase hhalted hexiting

/-- A process after a turn of one of its threads: the thread has moved, and the process was asked to
end if the thread did so. -/
structure Advanced (p : ThreadGroup) (i : Nat) (w : Worker) (status : Option Int)
    (after : ThreadGroup) : Prop where
  exists_move : ∃ w', w.Move p status w' ∧ after.workers = p.workers.set i w'
  settings_eq : after.settings = p.settings
  groupStatus_eq : after.groupStatus = (p.accept status).groupStatus
  exiting_eq : after.exiting = (p.accept status).exiting

/-- A batch of a thread that has not ended is run. -/
theorem advanced_runBatch (hphase : w.phase = .cleared) (hw : w.Sound) :
    p.Advanced i w none (p.runBatch i w) := by
  obtain ⟨r, hrun⟩ := Core.exists_run w.core (hw.cleared hphase) p.memory p.settings.batchSize
  rw [runBatch, hrun]
  exact ⟨⟨_, .batch _ _ _ hphase (Core.settles_run hrun), rfl⟩, rfl, rfl, rfl⟩

/-- A call of the host is done for a thread that has not ended. -/
theorem advanced_serve {r : SyscallRequest} (hphase : w.phase = .stopped (.syscall r))
    (hw : w.Sound) :
    p.Advanced i w (p.resultExit? w (.syscall r)) (p.serve i { w with phase := .ready } r) := by
  have hrunning : w.thread.halted = none := (hw.stopped _ hphase).1
  obtain ⟨registers, hthread⟩ := Linux.Caller.thread_call
    { kernel := p.kernel, memory := p.memory, thread := w.thread } r
  rw [resultExit?, serve]
  dsimp only at hthread ⊢
  generalize Linux.Caller.call { kernel := p.kernel, memory := p.memory, thread := w.thread } r = outcome
    at hthread ⊢
  obtain ⟨disposition, c⟩ := outcome
  dsimp only at hthread ⊢
  have hhalted : c.thread.halted = none := by
    rw [hthread]
    exact hrunning
  cases disposition with
  | answer value =>
    refine ⟨⟨_, .resume _ (registers.set Register.rax value.word) hphase rfl, ?_⟩, rfl, rfl, rfl⟩
    simp [setWorker, Thread.completeSyscall, Thread.isHalted, hrunning, Except.toOption, hthread]
  | exit status =>
    refine ⟨⟨_, .exit r registers status hphase, ?_⟩, rfl, rfl, rfl⟩
    dsimp only
    rw [halt_of_running hhalted]
    simp [setWorker, hthread]
  | exitProcess status =>
    refine ⟨⟨_, .exitProcess r registers status hphase, ?_⟩, rfl, rfl, rfl⟩
    dsimp only
    rw [halt_of_running hhalted]
    simp [setWorker, hthread, exitGroup]

/-- A fault that nobody handles is the one that stopped the batch, and it ends the thread. -/
theorem advanced_fail {fault : Fault} {a : Address} (hphase : w.phase = .stopped (.faulted fault a))
    (hw : w.Sound) :
    p.Advanced i w (p.resultExit? w (.faulted fault a)) (p.fail i { w with phase := .ready }) := by
  obtain ⟨hrunning, hpending⟩ := hw.stopped _ hphase
  have hmove : w.Move p _ _ := .fail fault a hphase
  have hhead : w.thread.pending = [⟨fault, a⟩] := hpending
  rw [resultExit?, fail]
  simp only [Thread.takeFault, hhead, List.head?_cons, List.tail_cons, Option.map_some]
  rw [halt_of_running (by exact hrunning)]
  cases hpolicy : p.settings.faultPolicy with
  | killProcess =>
    rw [hpolicy] at hmove
    exact ⟨⟨_, hmove, rfl⟩, rfl, rfl, rfl⟩
  | haltThread =>
    rw [hpolicy] at hmove
    exact ⟨⟨_, hmove, rfl⟩, rfl, rfl, rfl⟩

theorem phase_of_isOver (h : w.isOver = true) : w.phase = .finished ∨ w.phase = .panicked := by
  rwa [Worker.isOver, Worker.isFinished, Worker.isPanicked, Bool.or_eq_true, decide_eq_true_eq,
    decide_eq_true_eq] at h

/-- A thread that has no more rounds does nothing, and asks for nothing. -/
theorem advance_of_isOver (hfound : p.workers[i]? = some w) (hover : w.isOver = true) :
    p.advance i = p ∧ p.exit? (.advance i) = none := by
  rw [advance, exit?, hfound]
  obtain hphase | hphase := phase_of_isOver hover
  · simp only [hphase, and_self]
  · simp only [hphase, and_self]

/-- A thread that is not there does nothing. -/
theorem advance_of_none (hfound : p.workers[i]? = none) : p.advance i = p := by
  simp [advance, hfound]

/-- Every turn of a thread that has rounds left is a move. -/
theorem advanced_advance (hfound : p.workers[i]? = some w) (hw : w.Sound)
    (hrounds : w.isOver = false) : p.Advanced i w (p.exit? (.advance i)) (p.advance i) := by
  rw [exit?, advance, hfound]
  dsimp only
  cases hcase : w.phase with
  | ready => exact ⟨⟨_, move_check hcase, rfl⟩, rfl, rfl, rfl⟩
  | cleared => exact advanced_runBatch hcase hw
  | stopped result =>
    cases result with
    | completed => exact ⟨⟨_, .resume _ w.thread.registers hcase rfl, rfl⟩, rfl, rfl, rfl⟩
    | halted reason => exact ⟨⟨_, .resume _ w.thread.registers hcase rfl, rfl⟩, rfl, rfl, rfl⟩
    | syscall r => exact advanced_serve hcase hw
    | faulted fault a => exact advanced_fail hcase hw
    | panicked cause => exact ⟨⟨_, .panic cause hcase, rfl⟩, rfl, rfl, rfl⟩
  | finished => simp [Worker.isOver, Worker.isFinished, hcase] at hrounds
  | panicked => simp [Worker.isOver, Worker.isPanicked, hcase] at hrounds

end ThreadGroup

/-! ### What a move keeps -/

namespace Worker

variable {p : ThreadGroup} {w w' : Worker} {status : Option Int}

/-- What holds of a thread at each place in its round is kept by a move. -/
theorem Move.sound (h : w.Move p status w') (hw : w.Sound) : w'.Sound := by
  cases h with
  | leave reason _ hhalted =>
    exact ⟨nofun, nofun, fun _ ↦ by simp [hhalted], by simp⟩
  | kill _ _ _ => exact ⟨nofun, nofun, fun _ ↦ rfl, by simp⟩
  | clear hphase hhalted _ =>
    exact ⟨fun _ ↦ hhalted, nofun, nofun, fun _ ↦ hw.pending (.inl hphase)⟩
  | batch thread core result hphase hsettles =>
    refine ⟨nofun, fun result' hresult ↦ ?_, nofun, by simp⟩
    obtain rfl := Phase.stopped.inj hresult
    exact ⟨hsettles.halted_eq, hsettles.pending_eq (hw.pending (.inr hphase))⟩
  | resume result registers hphase hqueued =>
    exact ⟨nofun, nofun, nofun, fun _ ↦ (hw.stopped _ hphase).2.trans hqueued⟩
  | exit request registers status hphase =>
    exact ⟨nofun, nofun, nofun, fun _ ↦ (hw.stopped _ hphase).2⟩
  | exitProcess request registers status hphase =>
    exact ⟨nofun, nofun, nofun, fun _ ↦ (hw.stopped _ hphase).2⟩
  | fail fault a hphase => exact ⟨nofun, nofun, nofun, fun _ ↦ rfl⟩
  | panic cause hphase => exact ⟨nofun, nofun, nofun, by simp⟩

/-- A thread keeps its number. -/
theorem Move.tid_eq (h : w.Move p status w') : w'.thread.tid = w.thread.tid := by
  cases h with
  | batch _ _ _ _ hsettles => exact hsettles.tid_eq
  | _ => rfl

/-- A thread that has ended keeps the reason. -/
theorem Move.halted_eq (h : w.Move p status w') (hw : w.Sound) {reason : HaltReason}
    (hended : w.thread.halted = some reason) : w'.thread.halted = some reason := by
  have hstopped {result : StepResult} (hphase : w.phase = .stopped result)
      (hresult : result.haltReason? = none) : w'.thread.halted = some reason := by
    rw [(hw.stopped _ hphase).1, hresult] at hended
    nomatch hended
  cases h with
  | leave _ _ _ => exact hended
  | kill _ hrunning _ => exact nomatch hrunning.symm.trans hended
  | clear _ _ _ => exact hended
  | batch _ _ _ hphase _ => exact nomatch (hw.cleared hphase).symm.trans hended
  | resume _ _ _ _ => exact hended
  | exit _ _ _ hphase => exact hstopped hphase rfl
  | exitProcess _ _ _ hphase => exact hstopped hphase rfl
  | fail _ _ hphase => exact hstopped hphase rfl
  | panic _ _ => exact hended

/-- A thread is ended for others only when the process is ending. -/
theorem Move.exiting_of_killed (h : w.Move p status w') (hrunning : w.thread.halted = none)
    (hkilled : w'.thread.halted = some .killed) : p.exiting = true := by
  cases h with
  | leave _ _ _ => exact nomatch hrunning.symm.trans hkilled
  | kill _ _ hexiting => exact hexiting
  | clear _ _ _ => exact nomatch hrunning.symm.trans hkilled
  | batch _ _ _ _ hsettles =>
    obtain ⟨_, _, _, hdecode⟩ := hsettles.exists_decode hkilled
    nomatch hdecode
  | resume _ _ _ _ => exact nomatch hrunning.symm.trans hkilled
  | exit _ _ _ _ => nomatch hkilled
  | exitProcess _ _ _ _ => nomatch hkilled
  | fail _ _ _ => nomatch hkilled
  | panic _ _ => exact nomatch hrunning.symm.trans hkilled

/-- A thread gets to run a batch only when it sees that the process goes on. -/
theorem Move.not_exiting_of_cleared (h : w.Move p status w') (hcleared : w'.phase = .cleared) :
    p.exiting = false := by
  cases h with
  | clear _ _ hgoing => exact hgoing
  | _ => nomatch hcleared

end Worker

namespace ThreadGroup

variable {p : ThreadGroup} {i : Nat} {w w' : Worker}

/-- A thread that the host has just started. -/
def recruit (p : ThreadGroup) (registers : RegisterFile) : Worker where
  thread := { tid := p.workers.length + 1, registers }
  core := .ofConfig p.settings.core

/-! ### Turns of a process -/

/-- What holds of a process after every list of turns. -/
structure Sound (p : ThreadGroup) : Prop where
  worker (i : Nat) (w : Worker) : p.workers[i]? = some w → w.Sound
  tid_eq (i : Nat) (w : Worker) : p.workers[i]? = some w → w.thread.tid = i + 1
  exiting_of_killed (i : Nat) (w : Worker) : p.workers[i]? = some w →
    w.thread.halted = some .killed → p.exiting = true
  exiting_eq : p.exiting = p.groupStatus.isSome

/-- A process after a turn: the process was asked to end if the turn does that, at most the thread
whose turn it was has moved, and a thread that was not there before has just been started. -/
structure Turned (p : ThreadGroup) (turn : Turn) (after : ThreadGroup) : Prop where
  settings_eq : after.settings = p.settings
  groupStatus_eq : after.groupStatus = (p.groupStatus <|> (p.exit? turn).map lowStatus)
  exiting_eq : after.exiting = (p.exiting || (p.exit? turn).isSome)
  worker (i : Nat) (w : Worker) : p.workers[i]? = some w → ∃ w', after.workers[i]? = some w' ∧
    (w' = w ∧ (turn = .advance i → w.isOver = true) ∨
      turn = .advance i ∧ w.Move p (p.exit? turn) w')
  recruit (i : Nat) (w' : Worker) : p.workers[i]? = none → after.workers[i]? = some w' →
    ∃ registers, turn = .spawn registers ∧ i = p.workers.length ∧ w' = p.recruit registers
  length_eq : after.workers.length = p.workers.length + turn.isSpawn.toNat

theorem turned_advance (hp : p.Sound) (i : Nat) : p.Turned (.advance i) (p.advance i) := by
  have hidle (hsame : p.advance i = p) (hexit : p.exit? (.advance i) = none)
      (hover : ∀ w, p.workers[i]? = some w → w.isOver = true) :
      p.Turned (.advance i) (p.advance i) := by
    rw [hsame]
    refine ⟨rfl, by simp [hexit], by simp [hexit], fun j w hj ↦ ?_, fun j w' hj hj' ↦ ?_, rfl⟩
    · exact ⟨w, hj, .inl ⟨rfl, fun hturn ↦ hover w (by rwa [Turn.advance.inj hturn])⟩⟩
    · nomatch hj.symm.trans hj'
  cases hfound : p.workers[i]? with
  | none => exact hidle (advance_of_none hfound) (by simp [exit?, hfound]) (by simp [hfound])
  | some w =>
    by_cases hover : w.isOver = true
    · obtain ⟨hsame, hasked⟩ := advance_of_isOver hfound hover
      refine hidle hsame hasked ?_
      rintro w' hw'
      rwa [← Option.some.inj (hfound.symm.trans hw')]
    · obtain ⟨⟨w', hmove, hworkers⟩, hsettings, hstatus, hexiting⟩ :=
        advanced_advance hfound (hp.worker i w hfound) (Bool.eq_false_iff.mpr hover)
      refine ⟨hsettings, hstatus.trans (groupStatus_accept _ _), hexiting.trans (exiting_accept _ _),
        fun j v hj ↦ ?_, fun j v hj hj' ↦ ?_, by rw [hworkers, List.length_set]; rfl⟩
      · rw [hworkers]
        by_cases hij : i = j
        · subst hij
          obtain rfl := Option.some.inj (hfound.symm.trans hj)
          have hlt : i < p.workers.length := (List.getElem?_eq_some_iff.mp hj).1
          exact ⟨w', by simp [hlt], .inr ⟨rfl, hmove⟩⟩
        · refine ⟨v, by rwa [List.getElem?_set_ne hij], .inl ⟨rfl, fun hturn ↦ ?_⟩⟩
          exact absurd (Turn.advance.inj hturn) hij
      · rw [hworkers] at hj'
        have hlt := (List.getElem?_eq_some_iff.mp hj').1
        rw [List.length_set] at hlt
        exact absurd hlt (Nat.not_lt.mpr (List.getElem?_eq_none_iff.mp hj))

theorem turned_exitGroup (p : ThreadGroup) (status : Int) :
    p.Turned (.exitGroup status) (p.exitGroup status) := by
  refine ⟨rfl, groupStatus_accept p (some status), exiting_accept p (some status),
    fun j w hj ↦ ⟨w, hj, .inl ⟨rfl, nofun⟩⟩, fun j w hj hj' ↦ ?_, rfl⟩
  nomatch hj.symm.trans hj'

theorem turned_spawn (p : ThreadGroup) (registers : RegisterFile) :
    p.Turned (.spawn registers) (p.spawn registers) := by
  refine ⟨rfl, by simp [exit?, spawn], by simp [exit?, spawn], fun j w hj ↦ ?_, fun j w hj hj' ↦ ?_,
    by simp [spawn, Turn.isSpawn]⟩
  · have hlt : j < p.workers.length := (List.getElem?_eq_some_iff.mp hj).1
    exact ⟨w, by rwa [spawn, List.getElem?_append_left hlt], .inl ⟨rfl, nofun⟩⟩
  · rw [List.getElem?_eq_none_iff] at hj
    obtain rfl : j = p.workers.length := by
      have hlt := (List.getElem?_eq_some_iff.mp hj').1
      rw [spawn, List.length_append, List.length_singleton] at hlt
      omega
    rw [spawn, List.getElem?_concat_length] at hj'
    exact ⟨registers, rfl, rfl, (Option.some.inj hj').symm⟩

/-- Every turn moves at most the thread whose turn it is. -/
theorem turned_turn (hp : p.Sound) (turn : Turn) : p.Turned turn (p.turn turn) := by
  cases turn with
  | advance i => exact turned_advance hp i
  | exitGroup status => exact turned_exitGroup p status
  | spawn registers => exact turned_spawn p registers

/-- A thread that is there after a turn has been started in it, or comes from one that was there. -/
theorem Turned.exists_before {turn : Turn} {after : ThreadGroup} (h : p.Turned turn after)
    (hw' : after.workers[i]? = some w') :
    (i = p.workers.length ∧ ∃ registers, w' = p.recruit registers) ∨
      ∃ w, p.workers[i]? = some w ∧ (w' = w ∨ w.Move p (p.exit? turn) w') := by
  cases hfound : p.workers[i]? with
  | none =>
    obtain ⟨registers, _, hi, rfl⟩ := h.recruit i w' hfound hw'
    exact .inl ⟨hi, registers, rfl⟩
  | some w =>
    obtain ⟨v, hv, hcase⟩ := h.worker i w hfound
    obtain rfl := Option.some.inj (hv.symm.trans hw')
    exact .inr ⟨w, rfl, hcase.imp And.left And.right⟩

/-- What holds of a process after every list of turns is kept by one more. -/
theorem Turned.sound {turn : Turn} {after : ThreadGroup} (h : p.Turned turn after) (hp : p.Sound) :
    after.Sound := by
  refine ⟨fun i w' hw' ↦ ?_, fun i w' hw' ↦ ?_, fun i w' hw' hkilled ↦ ?_, ?_⟩
  · obtain ⟨_, registers, rfl⟩ | ⟨w, hw, rfl | hmove⟩ := h.exists_before hw'
    · exact ⟨nofun, nofun, nofun, fun _ ↦ rfl⟩
    · exact hp.worker i _ hw
    · exact hmove.sound (hp.worker i w hw)
  · obtain ⟨rfl, registers, rfl⟩ | ⟨w, hw, rfl | hmove⟩ := h.exists_before hw'
    · rfl
    · exact hp.tid_eq i _ hw
    · exact hmove.tid_eq.trans (hp.tid_eq i w hw)
  · rw [h.exiting_eq, Bool.or_eq_true]
    refine .inl ?_
    obtain ⟨_, registers, rfl⟩ | ⟨w, hw, rfl | hmove⟩ := h.exists_before hw'
    · nomatch hkilled
    · exact hp.exiting_of_killed i _ hw hkilled
    · cases hhalted : w.thread.halted with
      | none => exact hmove.exiting_of_killed hhalted hkilled
      | some reason =>
        have hkept := hmove.halted_eq (hp.worker i w hw) hhalted
        obtain rfl := Option.some.inj (hkept.symm.trans hkilled)
        exact hp.exiting_of_killed i w hw hhalted
  · rw [h.exiting_eq, h.groupStatus_eq, hp.exiting_eq]
    cases p.groupStatus <;> cases p.exit? turn <;> rfl

theorem Sound.turn (hp : p.Sound) (turn : Turn) : (p.turn turn).Sound :=
  (turned_turn hp turn).sound hp

theorem Sound.play (hp : p.Sound) (turns : List Turn) : (p.play turns).Sound := by
  induction turns generalizing p with
  | nil => exact hp
  | cons turn turns ih => exact ih (hp.turn turn)

theorem sound_start (settings : Settings) (memory : Memory) (kernel : Linux.Kernel) :
    (start settings memory kernel).Sound :=
  ⟨by simp [start], by simp [start], by simp [start], rfl⟩

/-- What holds of a process after every list of turns. -/
theorem sound_play (settings : Settings) (memory : Memory) (kernel : Linux.Kernel)
    (turns : List Turn) : ((start settings memory kernel).play turns).Sound :=
  (sound_start settings memory kernel).play turns

end ThreadGroup

end LongMode
