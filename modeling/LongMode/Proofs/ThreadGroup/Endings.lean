import LongMode.Proofs.ThreadGroup.Turns

/-!
How processes end. Whatever the order of the turns, the status of a process is the low byte of the
first one that it was asked to end with, and it stays (`ThreadGroup.groupStatus_play`). From then on
a thread runs at most the one batch for which it has already looked (`ThreadGroup.batches_le`). The
reason for which a thread has ended stays as well (`ThreadGroup.exists_worker_play`).
`ThreadGroup.settled_play` is all that can be said at any moment about how a process ends.
-/

set_option autoImplicit false
set_option relaxedAutoImplicit false

namespace LongMode

namespace ThreadGroup

variable {p : ThreadGroup} {i : Nat} {w w' : Worker}

/-- Whether a thread has seen that the process goes on, and is about to run a batch. -/
def isCleared (p : ThreadGroup) (i : Nat) : Bool :=
  p.workers[i]?.any (·.phase = .cleared)

/-- Whether a turn is a batch of a thread. -/
def isBatch (p : ThreadGroup) (i : Nat) : Turn → Bool
  | .advance j => j = i && p.isCleared i
  | _ => false

/-- How many batches a thread runs in turns. -/
def batches (i : Nat) : ThreadGroup → List Turn → Nat
  | _, [] => 0
  | p, turn :: turns => (p.isBatch i turn).toNat + batches i (p.turn turn) turns

/-- What is known at some moment about how a process ends. It has been asked to end with the
statuses `calls`, in this order, and so many threads were started. -/
structure Settled (p : ThreadGroup) (calls : List Int) (started : Nat) : Prop where
  /-- A process that is ending has a status. -/
  groupStatus_of_exiting : p.exiting = true → p.groupStatus.isSome
  /-- It is the low byte of the first status that was asked for. -/
  groupStatus_eq : p.groupStatus = calls.head?.map lowStatus
  /-- It stays. -/
  groupStatus_play (status : Nat) (later : List Turn) : p.groupStatus = some status →
    (p.play later).groupStatus = some status
  /-- A thread has been ended for others only if the process is ending. -/
  exiting_of_killed (i : Nat) (w : Worker) : p.workers[i]? = some w →
    w.thread.halted = some .killed → p.exiting = true
  /-- It was already ending before the turn in which that happened. -/
  exiting_of_kill (i : Nat) (w w' : Worker) (turn : Turn) : p.workers[i]? = some w →
    (p.turn turn).workers[i]? = some w' → w.thread.halted = none →
    w'.thread.halted = some .killed → p.exiting = true
  /-- Once the process is ending, a thread runs no batch but the one for which it has looked. -/
  batches_le (i : Nat) (later : List Turn) : p.exiting = true →
    batches i p later ≤ (p.isCleared i).toNat
  /-- A thread that has no more rounds has ended for the reason that is left of it. -/
  halted_of_finished (i : Nat) (w : Worker) : p.workers[i]? = some w → w.isFinished = true →
    w.thread.halted = some w.exit.reason
  /-- The reason for which a thread has ended stays. -/
  halted_play (i : Nat) (w : Worker) (reason : HaltReason) (later : List Turn) :
    p.workers[i]? = some w → w.thread.halted = some reason →
    ∃ w', (p.play later).workers[i]? = some w' ∧ w'.thread.halted = some reason
  /-- Whoever waits is told what is left of the process, unless a thread panicked. -/
  wait_eq : p.wait = .ok p.exit ∨ ∃ w ∈ p.workers, w.isPanicked = true ∧
    p.wait = .error (.threadPanicked w.thread.tid)
  /-- That is so when all threads came to their ends. -/
  wait_of_finished : p.isFinished = true → p.wait = .ok p.exit
  /-- It has the status of the process, if there is one. -/
  exit_status (status : Nat) : p.groupStatus = some status → p.exit.status = status
  /-- Otherwise it is the status of the first thread. -/
  exit_status_of_first (w : Worker) : p.groupStatus = none → p.isFinished = true →
    p.workers[0]? = some w → ∃ reason, w.thread.halted = some reason ∧
      reason.status? = some p.exit.status
  /-- Without threads it is zero. -/
  exit_status_of_empty : p.groupStatus = none → p.workers = [] → p.exit.status = 0
  /-- What is left of the threads is in the order in which they were started. -/
  exit_threads : p.exit.threads.map ThreadExit.tid = List.range' 1 started

/-! ### The status of a process -/

/-- The first status that a process is asked to end with stays. -/
theorem groupStatus_play (hp : p.Sound) (turns : List Turn) :
    (p.play turns).groupStatus = (p.groupStatus <|> (exits p turns).head?.map lowStatus) := by
  induction turns generalizing p with
  | nil => cases hstatus : p.groupStatus <;> simp [play, exits, hstatus]
  | cons turn turns ih =>
    have hturn := (turned_turn hp turn).groupStatus_eq
    change ((p.turn turn).play turns).groupStatus = _
    rw [ih (hp.turn turn), hturn, exits]
    cases p.groupStatus <;> cases p.exit? turn <;> simp

/-! ### Threads over many turns -/

/-- The threads of a process stay, and so do the reasons for which they have ended. -/
theorem exists_worker_play (hp : p.Sound) (turns : List Turn) (hw : p.workers[i]? = some w) :
    ∃ w', (p.play turns).workers[i]? = some w' ∧
      ∀ reason, w.thread.halted = some reason → w'.thread.halted = some reason := by
  induction turns generalizing p w with
  | nil => exact ⟨w, hw, fun _ ↦ id⟩
  | cons turn turns ih =>
    obtain ⟨w', hw', hcase⟩ := (turned_turn hp turn).worker i w hw
    obtain ⟨w'', hw'', hkept⟩ := ih (hp.turn turn) hw'
    refine ⟨w'', hw'', fun reason hended ↦ hkept reason ?_⟩
    obtain ⟨rfl, _⟩ | ⟨_, hmove⟩ := hcase
    · exact hended
    · exact hmove.halted_eq (hp.worker i w hw) hended

/-- As many threads are there as were started. -/
theorem length_play (hp : p.Sound) (turns : List Turn) :
    (p.play turns).workers.length = p.workers.length + turns.countP Turn.isSpawn := by
  induction turns generalizing p with
  | nil => rfl
  | cons turn turns ih =>
    have hturn := (turned_turn hp turn).length_eq
    change ((p.turn turn).play turns).workers.length = _
    rw [ih (hp.turn turn), hturn, List.countP_cons]
    cases turn.isSpawn with
    | false => simp
    | true => simp [Nat.add_right_comm, Nat.add_assoc]

/-- Threads are numbered in the order in which they were started. -/
theorem Sound.tids_eq (hp : p.Sound) :
    p.workers.map (·.thread.tid) = List.range' 1 p.workers.length := by
  refine List.ext_getElem (by simp) fun i hi _ ↦ ?_
  rw [List.length_map] at hi
  simp [hp.tid_eq i _ (List.getElem?_eq_getElem hi), Nat.add_comm]

/-! ### Batches -/

theorem isCleared_eq_true : p.isCleared i = true ↔ ∃ w, p.workers[i]? = some w ∧ w.phase = .cleared := by
  simp [isCleared, Option.any_eq_true]

/-- In a process that is ending, no thread gets to run a batch by looking. -/
theorem isCleared_of_turn (hp : p.Sound) (hexiting : p.exiting = true) (turn : Turn)
    (h : (p.turn turn).isCleared i = true) : p.isCleared i = true ∧ p.isBatch i turn = false := by
  obtain ⟨w', hw', hphase⟩ := isCleared_eq_true.mp h
  have hturned := turned_turn hp turn
  cases hfound : p.workers[i]? with
  | none =>
    obtain ⟨registers, _, _, rfl⟩ := hturned.recruit i w' hfound hw'
    nomatch hphase
  | some w =>
    obtain ⟨v, hv, hcase⟩ := hturned.worker i w hfound
    obtain rfl := Option.some.inj (hv.symm.trans hw')
    obtain ⟨rfl, hturn⟩ | ⟨_, hmove⟩ := hcase
    · refine ⟨isCleared_eq_true.mpr ⟨v, hfound, hphase⟩, ?_⟩
      cases turn with
      | advance j =>
        rw [isBatch, Bool.and_eq_false_iff]
        refine .inl (decide_eq_false fun hji ↦ ?_)
        obtain hover | hover := phase_of_isOver (hturn (congrArg _ hji))
        · nomatch hphase.symm.trans hover
        · nomatch hphase.symm.trans hover
      | exitGroup status => rfl
      | spawn registers => rfl
    · nomatch hexiting.symm.trans (hmove.not_exiting_of_cleared hphase)

/-- Once a process is ending, a thread runs at most the batch for which it has looked. -/
theorem batches_le (hp : p.Sound) (hexiting : p.exiting = true) (later : List Turn) :
    batches i p later ≤ (p.isCleared i).toNat := by
  induction later generalizing p with
  | nil => exact Nat.zero_le _
  | cons turn later ih =>
    have hstill : (p.turn turn).exiting = true := by
      rw [(turned_turn hp turn).exiting_eq, hexiting, Bool.true_or]
    have hrest := ih (hp.turn turn) hstill
    rw [batches]
    cases hcleared : (p.turn turn).isCleared i with
    | true =>
      obtain ⟨hbefore, hbatch⟩ := isCleared_of_turn hp hexiting turn hcleared
      rw [hcleared] at hrest
      rw [hbefore, hbatch]
      simpa using hrest
    | false =>
      rw [hcleared] at hrest
      have hone : (p.isBatch i turn).toNat ≤ (p.isCleared i).toNat := by
        cases turn with
        | advance j => cases hc : p.isCleared i <;> simp [isBatch, hc, Bool.toNat_le]
        | exitGroup status => exact Nat.zero_le _
        | spawn registers => exact Nat.zero_le _
      simp only [Bool.toNat_false] at hrest
      omega

/-! ### What is left of a process -/

theorem Sound.halted_of_finished (hp : p.Sound) (hw : p.workers[i]? = some w)
    (hfinished : w.isFinished = true) : w.thread.halted = some w.exit.reason := by
  obtain ⟨reason, hreason⟩ := Option.isSome_iff_exists.mp
    ((hp.worker i w hw).finished (by simpa [Worker.isFinished] using hfinished))
  rw [Worker.exit, hreason, Option.getD_some]

/-- Whoever waits is told what is left of a process, or of a thread that panicked. -/
theorem wait_eq (p : ThreadGroup) : p.wait = .ok p.exit ∨ ∃ w ∈ p.workers, w.isPanicked = true ∧
    p.wait = .error (.threadPanicked w.thread.tid) := by
  rw [wait]
  cases hfound : p.workers.find? Worker.isPanicked with
  | none => exact .inl rfl
  | some w => exact .inr ⟨w, List.mem_of_find?_eq_some hfound, List.find?_some hfound, rfl⟩

/-- A thread that came to its end did not panic. -/
theorem wait_of_finished (h : p.isFinished = true) : p.wait = .ok p.exit := by
  refine (wait_eq p).resolve_right fun ⟨w, hw, hpanicked, _⟩ ↦ ?_
  have hfinished : w.phase = .finished := of_decide_eq_true (List.all_eq_true.mp h w hw)
  rw [Worker.isPanicked, hfinished] at hpanicked
  cases hpanicked

/-- A process that no one asked to end is given the status of its first thread. -/
theorem Sound.exit_status_of_first (hp : p.Sound) (hstatus : p.groupStatus = none)
    (hfinished : p.isFinished = true) (hw : p.workers[0]? = some w) :
    ∃ reason, w.thread.halted = some reason ∧ reason.status? = some p.exit.status := by
  have hmem : w ∈ p.workers := List.mem_of_getElem? hw
  have hhalted := hp.halted_of_finished hw (List.all_eq_true.mp hfinished w hmem)
  refine ⟨_, hhalted, ?_⟩
  have hhead : (p.workers.map Worker.exit).head? = some w.exit := by
    rw [List.head?_map, List.head?_eq_getElem?, hw, Option.map_some]
  -- Only a thread that was ended for others has no status, and there are no others.
  cases hreason : w.exit.reason with
  | killed =>
    have hexiting := hp.exiting_of_killed 0 w hw (hhalted.trans (congrArg some hreason))
    rw [hp.exiting_eq, hstatus] at hexiting
    nomatch hexiting
  | exited status => simp [exit, hstatus, hhead, hreason, HaltReason.status?]
  | fault fault a => simp [exit, hstatus, hhead, hreason, HaltReason.status?]
  | decode a bytes error => simp [exit, hstatus, hhead, hreason, HaltReason.status?]

/-- What is known about how a process ends, after every list of turns. -/
theorem settled_play (settings : Settings) (memory : Memory) (kernel : Linux.Kernel)
    (turns : List Turn) :
    ((start settings memory kernel).play turns).Settled (exits (start settings memory kernel) turns)
      (turns.countP Turn.isSpawn) := by
  have hstart := sound_start settings memory kernel
  have hp := sound_play settings memory kernel turns
  have hlength := length_play hstart turns
  have hgroup := groupStatus_play hstart turns
  rw [show (start settings memory kernel).workers.length = 0 from rfl, Nat.zero_add] at hlength
  generalize (start settings memory kernel).play turns = p at hp hlength hgroup ⊢
  exact
    { groupStatus_of_exiting := fun hexiting ↦ hp.exiting_eq.symm.trans hexiting
      groupStatus_eq := hgroup
      groupStatus_play := fun status later hstatus ↦ by
        rw [ThreadGroup.groupStatus_play hp, hstatus]; rfl
      exiting_of_killed := hp.exiting_of_killed
      exiting_of_kill := fun i w w' turn hw hw' hrunning hkilled ↦ by
        obtain ⟨v, hv, hcase⟩ := (turned_turn hp turn).worker i w hw
        obtain rfl := Option.some.inj (hv.symm.trans hw')
        obtain ⟨rfl, _⟩ | ⟨_, hmove⟩ := hcase
        · nomatch hrunning.symm.trans hkilled
        · exact hmove.exiting_of_killed hrunning hkilled
      batches_le := fun i later hexiting ↦ ThreadGroup.batches_le hp hexiting later
      halted_of_finished := fun i w hw hfinished ↦ hp.halted_of_finished hw hfinished
      halted_play := fun i w reason later hw hended ↦ by
        obtain ⟨w', hw', hkept⟩ := exists_worker_play hp later hw
        exact ⟨w', hw', hkept reason hended⟩
      wait_eq := ThreadGroup.wait_eq p
      wait_of_finished := ThreadGroup.wait_of_finished
      exit_status := fun status hstatus ↦ by simp [exit, hstatus]
      exit_status_of_first := fun w hstatus hfinished hw ↦
        hp.exit_status_of_first hstatus hfinished hw
      exit_status_of_empty := fun hstatus hnone ↦ by simp [exit, hstatus, hnone]
      exit_threads := by
        rw [← hlength, ← hp.tids_eq, exit, List.map_map]
        rfl }

end ThreadGroup

end LongMode
