import LongMode.Proofs.Core.Attempts
import LongMode.Proofs.Core.Sessions

/-!
The calls on a thread in the order they are made. A thread is stepped, run and ended, the host
answers its calls and takes faults from its queue, and in between the core may forget what it
remembers and memory may change (`Session.follow`).

* An ended thread is left alone: each later call but that for a fault is rejected and changes
  nothing (`Session.serve_of_halted`), so its reason stays (`Session.thread_follow_of_halted`).
* What a call takes from the queue and what it leaves there is what was there before, followed by
  the fault that it reports, if there is room (`Session.pending_serve`). So the faults that were
  taken and those that wait are together the reported ones in order, but for those that found the
  queue full (`Session.pending_follow`).
-/

set_option autoImplicit false
set_option relaxedAutoImplicit false

namespace LongMode

/-! ### The queue after a run -/

/-- The queue of faults after an attempt or a run with some result. -/
def Thread.pendingAfter (t : Thread) (result : StepResult) : List PendingFault :=
  if t.pending.length < maxPending then t.pending ++ result.queued else t.pending

theorem Thread.pendingAfter_of_queued_eq_nil (t : Thread) {result : StepResult}
    (h : result.queued = []) : t.pendingAfter result = t.pending := by
  rw [pendingAfter, h, List.append_nil, ite_self]

theorem StepResult.length_queued_le (result : StepResult) : result.queued.length ≤ 1 := by
  cases result <;> simp [queued]

namespace Thread

variable {t : Thread} {m : Memory}

theorem pending_haltOnDecode (a : Address) (bytes : List UInt8) (error : DecodeError) :
    (t.haltOnDecode m a bytes error).thread.pending =
      t.pendingAfter (t.haltOnDecode m a bytes error).result := by
  rw [pendingAfter_of_queued_eq_nil t rfl, haltOnDecode, halt]
  split
  · rfl
  · rfl

theorem pending_raise (fault : Fault) (a : Address) :
    (t.raise m fault a).thread.pending = t.pendingAfter (t.raise m fault a).result := by
  unfold raise
  split
  · exact pending_haltOnDecode a _ _
  · rw [deliver_eq]
    rfl

theorem pending_panic (p : Panic) :
    (t.panic m p).thread.pending = t.pendingAfter (t.panic m p).result :=
  (pendingAfter_of_queued_eq_nil t rfl).symm

theorem pending_abandon (stop : Stop) (a : Address) :
    (t.abandon m stop a).thread.pending = t.pendingAfter (t.abandon m stop a).result := by
  cases stop with
  | fault fault => exact pending_raise fault a
  | panic p => exact pending_panic p

theorem pending_execute (i : Instruction) :
    (t.execute m i).thread.pending = t.pendingAfter (t.execute m i).result := by
  rw [execute]
  split
  · exact pending_abandon _ _
  · rename_i done after _
    rw [pendingAfter_of_queued_eq_nil]
    · rfl
    · dsimp only
      split
      · rfl
      · rfl

theorem Attempt.pending_eq {e : Execution} (h : t.Attempt m e) :
    e.thread.pending = t.pendingAfter e.result := by
  cases h with
  | execute i => exact pending_execute i
  | raise fault => exact pending_raise _ _
  | halt bytes error => exact pending_haltOnDecode _ _ _
  | panic p => exact pending_panic p

end Thread

namespace Core

variable {c : Core} {t : Thread} {m : Memory} {r : Run}

/-- Only the last attempt of a run reports a fault. -/
theorem inductive_pending (t : Thread) :
    Run.Inductive fun r ↦ r.thread.pending = t.pendingAfter r.result where
  extend r core e hr hresult he := by
    rw [hresult, Thread.pendingAfter_of_queued_eq_nil t rfl] at hr
    refine he.pending_eq.trans ?_
    rw [Thread.pendingAfter, hr]
    rfl
  core _ _ hr := hr

theorem pending_run {budget : Nat} (h : c.run t (some m) budget = .ok r) :
    r.thread.pending = t.pendingAfter r.result :=
  (inductive_pending t).run h (Thread.pendingAfter_of_queued_eq_nil t rfl).symm

theorem pending_step (h : c.step t (some m) = .ok r) :
    r.thread.pending = t.pendingAfter r.result := by
  obtain ⟨_, m', _, rfl⟩ := step_eq_ok.mp h
  exact (attempt_stepOne c t m').pending_eq

theorem settles_step (h : c.step t (some m) = .ok r) : t.Settles r.thread r.result := by
  obtain ⟨ht, m', _, rfl⟩ := step_eq_ok.mp h
  exact (attempt_stepOne c t m').settles ht

end Core

/-! ### Calls -/

/-- A call on a thread, or something that happens between two of them. -/
inductive ThreadCall where
  /-- One instruction is executed. -/
  | step
  /-- As many instructions are executed as a budget allows. -/
  | run (budget : Nat)
  /-- The thread is ended. -/
  | halt (reason : HaltReason)
  /-- The host answers a call of the thread. -/
  | completeSyscall (answer : SyscallReturn)
  /-- The oldest fault is taken from the queue. -/
  | takeFault
  /-- The core forgets what it remembers. -/
  | flush
  /-- Something happens to memory. -/
  | act (action : Action)

namespace ThreadCall

/-- Whether a call is for a thread that has not ended. -/
def needsRunning : ThreadCall → Bool
  | step | run _ | halt _ | completeSyscall _ => true
  | _ => false

/-- What happens to memory besides the work of the thread. -/
def action? : ThreadCall → Option Action
  | act action => some action
  | _ => none

end ThreadCall

/-- The result of a step or a run that was made. -/
def Report.result? : Report → Option StepResult
  | stepped result => some result
  | ran _ result => some result
  | _ => none

/-- The answer to a call on a thread. -/
inductive ThreadReply where
  /-- A report. -/
  | told (report : Report)
  /-- The oldest fault, if there was one. -/
  | took (fault : Option PendingFault)

namespace ThreadReply

/-- The result of a step or a run that was made. -/
def result? : ThreadReply → Option StepResult
  | told report => report.result?
  | took _ => none

/-- The faults that an answer reports. -/
def reported (reply : ThreadReply) : List PendingFault :=
  (reply.result?.map StepResult.queued).getD []

/-- The faults that an answer hands over. -/
def taken : ThreadReply → List PendingFault
  | told _ => []
  | took fault => fault.toList

end ThreadReply

/-- A call in retrospect: how many faults waited when it was made, and how it was answered. -/
structure CallRecord where
  waiting : Nat
  reply : ThreadReply

namespace CallRecord

/-- The faults that calls handed over, in order. -/
def taken (records : List CallRecord) : List PendingFault :=
  records.flatMap (·.reply.taken)

/-- The faults that calls reported while fewer than 64 waited, in order. -/
def kept (records : List CallRecord) : List PendingFault :=
  (records.filter (·.waiting < 64)).flatMap (·.reply.reported)

end CallRecord

namespace Session

/-- Go on with a thread that was changed, if it could be. -/
def change (s : Session) : Except SchedulingError Thread → ThreadReply × Session
  | .ok thread => (.told .quiet, { s with thread })
  | .error error => (.told (.rejected error), s)

/-- Serve a call on a thread in address space `k`. -/
def serve (k : Nat) (s : Session) : ThreadCall → ThreadReply × Session
  | .step => (s.perform Core.run k .step).map .told id
  | .run budget => (s.perform Core.run k (.run budget)).map .told id
  | .halt reason => s.change (s.thread.halt reason)
  | .completeSyscall answer => s.change (s.thread.completeSyscall answer)
  | .takeFault => (.took s.thread.takeFault.1, { s with thread := s.thread.takeFault.2 })
  | .flush => (s.perform Core.run k .flush).map .told id
  | .act action => (s.perform Core.run k (.act action)).map .told id

/-- Serve calls, and keep a record of them. -/
def follow (k : Nat) : Session → List ThreadCall → List CallRecord × Session
  | s, [] => ([], s)
  | s, call :: calls =>
    let (reply, next) := s.serve k call
    let (records, last) := follow k next calls
    (⟨s.thread.pending.length, reply⟩ :: records, last)

variable {s : Session} {k : Nat}

theorem follow_append (s : Session) (before after : List ThreadCall) :
    (s.follow k (before ++ after)).2 = ((s.follow k before).2.follow k after).2 := by
  induction before generalizing s with
  | nil => rfl
  | cons call before ih => exact ih (s.serve k call).2

/-! ### Ended threads -/

/-- A call that needs a running thread is rejected for an ended one and changes nothing. -/
theorem serve_of_halted {reason : HaltReason} (h : s.thread.halted = some reason)
    {call : ThreadCall} (hcall : call.needsRunning = true) :
    s.serve k call = (.told (.rejected .threadAlreadyHalted), s) := by
  have hhalted : s.thread.isHalted = true := by
    rw [Thread.isHalted, h]
    rfl
  have hrunnable (m : Option Memory) :
      Core.runnable s.thread m = .error .threadAlreadyHalted := by
    simp only [Core.runnable, hhalted, if_true]
  cases call with
  | step =>
    simp only [serve, perform, Core.step, hrunnable]
    rfl
  | run budget =>
    simp only [serve, perform, Core.run, hrunnable]
    rfl
  | halt reason' =>
    simp only [serve, Thread.halt, hhalted]
    rfl
  | completeSyscall answer =>
    simp only [serve, Thread.completeSyscall, hhalted]
    rfl
  | takeFault => cases hcall
  | flush => cases hcall
  | act action => cases hcall

/-- An ended thread and the memory of the machine, after a call: only what is left of the queue may
differ, and memory is what others made of it. -/
theorem thread_serve_of_halted {reason : HaltReason} (h : s.thread.halted = some reason)
    (call : ThreadCall) :
    (∃ pending, (s.serve k call).2.thread = { s.thread with pending }) ∧
      (s.serve k call).2.world = s.world.after call.action?.toList := by
  cases hcall : call.needsRunning with
  | true =>
    rw [serve_of_halted h hcall]
    cases call with
    | takeFault => cases hcall
    | flush => cases hcall
    | act action => cases hcall
    | _ => exact ⟨⟨_, rfl⟩, rfl⟩
  | false =>
    cases call with
    | takeFault => exact ⟨⟨_, rfl⟩, rfl⟩
    | flush => exact ⟨⟨_, rfl⟩, rfl⟩
    | act action => exact ⟨⟨_, rfl⟩, rfl⟩
    | _ => cases hcall

theorem thread_follow_of_halted {reason : HaltReason} (h : s.thread.halted = some reason)
    (calls : List ThreadCall) :
    (∃ pending, (s.follow k calls).2.thread = { s.thread with pending }) ∧
      (s.follow k calls).2.world = s.world.after (calls.filterMap ThreadCall.action?) := by
  induction calls generalizing s with
  | nil => exact ⟨⟨_, rfl⟩, rfl⟩
  | cons call calls ih =>
    obtain ⟨⟨pending, hthread⟩, hworld⟩ := thread_serve_of_halted (k := k) h call
    have hnext : (s.serve k call).2.thread.halted = some reason := by
      rw [hthread]
      exact h
    obtain ⟨⟨pending', hthread'⟩, hworld'⟩ := ih hnext
    rw [hthread] at hthread'
    rw [hworld] at hworld'
    refine ⟨⟨pending', hthread'⟩, hworld'.trans ?_⟩
    rw [← World.after_append]
    cases call <;> rfl

/-- A thread ends by the call that ends it, or because a step or a run says so, and for that
reason. -/
theorem halted_serve (h : s.thread.halted = none) (call : ThreadCall) (reason : HaltReason) :
    (s.serve k call).2.thread.halted = some reason ↔
      call = .halt reason ∨ (s.serve k call).1.result? = some (.halted reason) := by
  have hsettled {result : StepResult} {t : Thread} (hsettles : s.thread.Settles t result) :
      t.halted = some reason ↔ some result = some (.halted reason) := by
    rw [hsettles.halted_eq, Option.some.injEq]
    cases result <;> simp [StepResult.haltReason?]
  have hrunning : s.thread.halted ≠ some reason := by
    rw [h]
    exact (Option.some_ne_none reason).symm
  have hnotHalted : ¬s.thread.isHalted = true := by
    rw [Thread.isHalted, h]
    exact Bool.false_ne_true
  have hsilent : none ≠ some (StepResult.halted reason) := (Option.some_ne_none _).symm
  cases call with
  | step =>
    simp only [serve, perform, reduceCtorEq, false_or]
    cases hstep : s.core.step s.thread (some (s.world.memory k)) with
    | error error => exact iff_of_false hrunning hsilent
    | ok r => exact hsettled (Core.settles_step hstep)
  | run budget =>
    simp only [serve, perform, reduceCtorEq, false_or]
    cases hrun : s.core.run s.thread (some (s.world.memory k)) budget with
    | error error => exact iff_of_false hrunning hsilent
    | ok r => exact hsettled (Core.settles_run hrun)
  | halt reason' =>
    have hhalt : s.thread.halt reason' = .ok { s.thread with halted := some reason' } := by
      rw [Thread.halt, if_neg hnotHalted]
    simp only [serve, hhalt, change, ThreadCall.halt.injEq, Option.some.injEq]
    exact ⟨.inl, fun hreason ↦ hreason.resolve_right hsilent⟩
  | completeSyscall answer =>
    have hcomplete : s.thread.completeSyscall answer = .ok { s.thread with
        registers := s.thread.registers.set Register.rax answer.word } := by
      rw [Thread.completeSyscall, if_neg hnotHalted]
    simp only [serve, hcomplete, change, reduceCtorEq, false_or]
    exact iff_of_false hrunning hsilent
  | takeFault =>
    simp only [reduceCtorEq, false_or]
    exact iff_of_false hrunning hsilent
  | flush =>
    simp only [reduceCtorEq, false_or]
    exact iff_of_false hrunning hsilent
  | act action =>
    simp only [reduceCtorEq, false_or]
    exact iff_of_false hrunning hsilent

/-! ### The queue -/

/-- What a call takes from the queue and leaves there is what was there, and then the fault that it
reports if fewer than 64 waited. -/
theorem pending_serve (s : Session) (call : ThreadCall) :
    (s.serve k call).1.taken ++ (s.serve k call).2.thread.pending =
      s.thread.pending ++
        if s.thread.pending.length < 64 then (s.serve k call).1.reported else [] := by
  have hsame : s.thread.pending =
      s.thread.pending ++ if s.thread.pending.length < 64 then [] else [] := by
    rw [ite_self, List.append_nil]
  have hafter (result : StepResult) : s.thread.pendingAfter result =
      s.thread.pending ++ if s.thread.pending.length < 64 then result.queued else [] := by
    rw [Thread.pendingAfter, Thread.maxPending]
    split
    · rfl
    · rw [List.append_nil]
  cases call with
  | step =>
    simp only [serve, perform]
    cases hstep : s.core.step s.thread (some (s.world.memory k)) with
    | error error => exact hsame
    | ok r => exact (Core.pending_step hstep).trans (hafter r.result)
  | run budget =>
    simp only [serve, perform]
    cases hrun : s.core.run s.thread (some (s.world.memory k)) budget with
    | error error => exact hsame
    | ok r => exact (Core.pending_run hrun).trans (hafter r.result)
  | halt reason =>
    rw [serve, Thread.halt]
    split
    · exact hsame
    · exact hsame
  | completeSyscall answer =>
    rw [serve, Thread.completeSyscall]
    split
    · exact hsame
    · exact hsame
  | takeFault =>
    refine Eq.trans ?_ hsame
    change s.thread.pending.head?.toList ++ s.thread.pending.tail = s.thread.pending
    cases s.thread.pending with
    | nil => rfl
    | cons fault rest => rfl
  | flush => exact hsame
  | act action => exact hsame

theorem length_reported_le (reply : ThreadReply) : reply.reported.length ≤ 1 := by
  rw [ThreadReply.reported]
  cases reply.result? with
  | none => exact Nat.zero_le 1
  | some result => exact result.length_queued_le

/-- No call makes more than 64 faults wait. -/
theorem length_pending_serve (h : s.thread.pending.length ≤ 64) (call : ThreadCall) :
    (s.serve k call).2.thread.pending.length ≤ 64 := by
  have hlength := congrArg List.length (pending_serve (k := k) s call)
  have hone := length_reported_le (s.serve k call).1
  rw [List.length_append, List.length_append] at hlength
  split at hlength
  · omega
  · rw [List.length_nil] at hlength
    omega

theorem length_pending_follow (h : s.thread.pending.length ≤ 64) (calls : List ThreadCall) :
    (s.follow k calls).2.thread.pending.length ≤ 64 := by
  induction calls generalizing s with
  | nil => exact h
  | cons call calls ih => exact ih (length_pending_serve h call)

/-- What was taken from the queue over some calls and what waits in the end is what waited in the
beginning, and then what was reported while there was room. -/
theorem pending_follow (s : Session) (calls : List ThreadCall) :
    CallRecord.taken (s.follow k calls).1 ++ (s.follow k calls).2.thread.pending =
      s.thread.pending ++ CallRecord.kept (s.follow k calls).1 := by
  induction calls generalizing s with
  | nil => exact (List.append_nil _).symm
  | cons call calls ih =>
    have hone := pending_serve (k := k) s call
    have hrest := ih (s.serve k call).2
    have htaken : CallRecord.taken (s.follow k (call :: calls)).1 =
        (s.serve k call).1.taken ++ CallRecord.taken ((s.serve k call).2.follow k calls).1 := rfl
    have hkept : CallRecord.kept (s.follow k (call :: calls)).1 =
        (if s.thread.pending.length < 64 then (s.serve k call).1.reported else []) ++
          CallRecord.kept ((s.serve k call).2.follow k calls).1 := by
      rw [follow]
      simp only [CallRecord.kept, List.filter_cons, decide_eq_true_eq]
      split
      · rfl
      · rfl
    rw [htaken, hkept, ← List.append_assoc, ← hone, List.append_assoc, List.append_assoc, ← hrest]
    rfl

/-- A new thread after any calls, with any core and whatever is done to memory in between.

No more than 64 faults wait. Those that were taken from the queue and those that wait are together
the faults that steps and runs reported while fewer than 64 waited, in the order of the reports; so
the next fault to be taken is the first of these that was not taken before.

A thread that has not ended ends by the call that ends it, or when a step or a run says that it has
ended, and for that reason. From then on, whatever is called, it has ended for this reason, its
registers and its count of completed instructions are what they were, and memory is what others make
of it. Each call that needs a running thread is rejected and changes nothing. -/
theorem lifetime_follow (config : CoreConfig) (windows : Nat → MapWindow) (history : List Action)
    (k tid : Nat) (registers : RegisterFile) (calls : List ThreadCall) :
    let start : Session :=
      ⟨.ofConfig config, { tid, registers }, (World.start windows).after history⟩
    let records := (start.follow k calls).1
    let now := (start.follow k calls).2
    now.thread.pending.length ≤ 64 ∧
      CallRecord.taken records ++ now.thread.pending = CallRecord.kept records ∧
      (now.serve k .takeFault).1 =
        .took (CallRecord.kept records)[(CallRecord.taken records).length]? ∧
      (now.thread.halted = none → ∀ call reason,
        (now.serve k call).2.thread.halted = some reason ↔
          call = .halt reason ∨ (now.serve k call).1.result? = some (.halted reason)) ∧
      ∀ reason, now.thread.halted = some reason → ∀ later : List ThreadCall,
        let after := (start.follow k (calls ++ later)).2
        after.thread.halted = some reason ∧ after.thread.registers = now.thread.registers ∧
          after.thread.retired = now.thread.retired ∧
          after.world = now.world.after (later.filterMap ThreadCall.action?) ∧
          ∀ call : ThreadCall, call.needsRunning = true →
            after.serve k call = (.told (.rejected .threadAlreadyHalted), after) := by
  intro start records now
  have hqueue : CallRecord.taken records ++ now.thread.pending = CallRecord.kept records :=
    pending_follow start calls
  refine ⟨length_pending_follow (s := start) (Nat.zero_le 64) calls, hqueue, ?_,
    fun hrunning call reason ↦ halted_serve hrunning call reason, fun reason hended later ↦ ?_⟩
  · rw [← hqueue, List.getElem?_append_right (Nat.le_refl _), Nat.sub_self,
      ← List.head?_eq_getElem?]
    rfl
  · intro after
    have hafter : after = (now.follow k later).2 := follow_append start calls later
    obtain ⟨⟨pending, hthread⟩, hworld⟩ := thread_follow_of_halted (k := k) hended later
    rw [← hafter] at hthread hworld
    have hstill : after.thread.halted = some reason := by
      rw [hthread]
      exact hended
    refine ⟨hstill, ?_, ?_, hworld, fun call hcall ↦ serve_of_halted hstill hcall⟩
    · rw [hthread]
    · rw [hthread]

/-- A thread without code, stepped sixty-six times: the last two faults are dropped. -/
example :
    let start : Session := ⟨.ofConfig {}, { tid := 1, registers := .start 0x1000 0 },
      World.start fun _ ↦ {}⟩
    let played := start.follow 0 (List.replicate 66 .step)
    played.2.thread.pending.length = 64 ∧ (played.1.flatMap (·.reply.reported)).length = 66 := by
  decide +kernel

end Session

end LongMode
