import LongMode.Proofs.Linux.Heap
import LongMode.Proofs.Linux.Input
import LongMode.Proofs.Linux.Mappings
import LongMode.Proofs.Linux.Opening
import LongMode.Proofs.Linux.Output

/-!
All that a request can come to. Calls about descriptors, files and pages have relations of their
own; the other ones tell numbers, set segment bases and send signals, and leave the kernel as it is
(`Caller.Tells`). `Caller.Does` has one case for each of these relations, and every request is one
of the cases (`Caller.does_call`), so that what holds of all calls is shown case by case.
-/

set_option autoImplicit false
set_option relaxedAutoImplicit false

namespace LongMode.Linux

/-! ### Calls that leave the kernel as it is -/

namespace Caller

/-- The numbers that a call may tell: zero, if that is all it has to say, and who calls. -/
def numbers (c : Caller) : List Nat :=
  [0, c.kernel.process, c.kernel.user, c.kernel.group, c.thread.tid]

/-- What a call comes to that is not about the kernel. -/
inductive Tells (c : Caller) : Disposition → Caller → Prop
  /-- The answer is a number. -/
  | number (n : Nat) (hn : n ∈ c.numbers) (c' : Caller) (hkernel : c'.kernel = c.kernel) :
    Tells c (.ofWord (.ok (BitVec.ofNat 64 n))) c'
  /-- The call fails. -/
  | failed (e : Errno) : Tells c (.ofWord (.error e)) c
  /-- The thread ends. -/
  | exit (status : Int) : Tells c (.exit status) c
  /-- The process ends. -/
  | exitProcess (status : Int) : Tells c (.exitProcess status) c

end Caller

namespace Call

variable {c : Caller}

/-- What a computation comes to when a call does nothing but it. -/
def Tells (x : Call Outcome) (c : Caller) : Prop :=
  c.Tells (.ofResult (x.run.run c).1) (x.run.run c).2

theorem tells_pure {n : Nat} (h : n ∈ c.numbers) :
    Tells (pure (.value (BitVec.ofNat 64 n))) c :=
  .number n h c rfl

theorem tells_throw (e : Errno) (c : Caller) : Tells (throw e) c :=
  .failed e

theorem tells_guard {p : Prop} [Decidable p] {e : Errno} {k : PUnit → Call Outcome}
    (h : ¬p → Tells (k ⟨⟩) c) : Tells (if p then throw e >>= k else k ⟨⟩) c := by
  rw [Tells, run_guard]
  split
  next => exact .failed e
  next hp => exact h hp

/-- A computation ends with zero, or fails, and leaves the kernel as it is. -/
inductive Acknowledges (x : Call Word) (c : Caller) : Prop
  | done (c' : Caller) (hkernel : c'.kernel = c.kernel) (h : Ends x c 0 c')
  | failed (e : Errno) (h : x.run.run c = (.error e, c))

theorem Acknowledges.tells {x : Call Word} (h : Acknowledges x c) :
    Tells (do return .value (← x)) c := by
  cases h with
  | done c' hkernel h =>
    rw [Tells, h.run_bind]
    exact .number 0 List.mem_cons_self c' hkernel
  | failed e h =>
    rw [Tells, run_bind_of_error h]
    exact .failed e

theorem acknowledges_store (a : Address) (bytes : List UInt8) (c : Caller) :
    Acknowledges (do store a bytes; return 0) c := by
  cases hwrite : c.memory.write a bytes with
  | ok memory =>
    have hends : Ends (store a bytes) c () { c with memory } := by
      rw [Ends, store, (ends_get c).run_bind, hwrite]
      rfl
    exact .done { c with memory } rfl hends.run_bind
  | error fault =>
    have hrun : (store a bytes).run.run c = (.error .efault, c) := by
      rw [store, (ends_get c).run_bind, hwrite]
      rfl
    exact .failed .efault (run_bind_of_error hrun)

theorem acknowledges_segmentBase (code : Word) (a : Address) (c : Caller) :
    Acknowledges (segmentBase code a) c := by
  have hset (f : RegisterFile → RegisterFile) :
      Acknowledges (do
        if segmentBaseLimit ≤ a.toNat then throw .eperm
        modifyRegisters f
        return 0) c := by
    split
    · exact .failed .eperm rfl
    · exact .done { c with thread := { c.thread with registers := f c.thread.registers } } rfl rfl
  have hstore (f : Caller → Word) :
      Acknowledges (do storeWord a (f (← get)); return 0) c := by
    have hrun : (do storeWord a (f (← get)); return 0 : Call Word).run.run c = _ :=
      (ends_get c).run_bind
    cases acknowledges_store a (LittleEndian.ofNat 8 (f c).toNat) c with
    | done c' hkernel h => exact .done c' hkernel (hrun.trans h)
    | failed e h => exact .failed e (hrun.trans h)
  unfold segmentBase
  split
  · exact hset _
  · exact hset _
  · exact hstore fun c ↦ c.thread.registers.fsBase
  · exact hstore fun c ↦ c.thread.registers.gsBase
  · exact .failed .einval rfl

theorem tells_signal (process number : Word) (c : Caller) : Tells (signal process number) c := by
  refine tells_guard fun _ ↦ ?_
  rw [Tells, (ends_kernel c).run_bind]
  refine tells_guard fun _ ↦ ?_
  split
  · exact tells_pure List.mem_cons_self
  · exact .exitProcess _

theorem tells_requirePositive_bind {w : Word} {k : Unit → Call Outcome} (h : Tells (k ()) c) :
    Tells (requirePositive w >>= k) c := by
  rw [requirePositive]
  split
  · exact .failed .einval
  · exact h

end Call

namespace Caller

/-- What a request comes to. -/
inductive Does (c : Caller) (r : SyscallRequest) : Disposition → Caller → Prop
  /-- It reads. -/
  | reads (hr : r.syscall? = some .read) (result : Except Errno Word) (c' : Caller)
    (h : c.Reads (r.argument 0) (r.argument 1) (r.argument 2) result c') :
    Does c r (.ofWord result) c'
  /-- It writes, from one buffer or from several ones. -/
  | puts (hr : r.syscall? = some .write ∨ r.syscall? = some .writeGathered)
    (needed places : List Address) (hplaces : places.length ≤ Call.maxTransfer)
    (result : Except Errno Word) (c' : Caller) (h : c.Puts (r.argument 0) needed places result c') :
    Does c r (.ofWord result) c'
  /-- It opens a file. -/
  | opens (directory a flags : Word) (hr : opening? r = some (directory, a, flags))
    (result : Except Errno Word) (c' : Caller) (h : c.Opens a flags result c') :
    Does c r (.ofWord result) c'
  /-- It moves a position. -/
  | repositions (hr : r.syscall? = some .reposition) (result : Except Errno Word) (c' : Caller)
    (h : c.Repositions (r.argument 0) (r.argument 1) (r.argument 2) result c') :
    Does c r (.ofWord result) c'
  /-- It closes a descriptor. -/
  | closes (hr : r.syscall? = some .close) (result : Except Errno Word) (c' : Caller)
    (h : c.Closes (r.argument 0) result c') : Does c r (.ofWord result) c'
  /-- It maps pages. -/
  | maps (hr : r.syscall? = some .mapPages) (result : Except Errno Word) (c' : Caller)
    (h : c.MapsPages (r.argument 0) (r.argument 1) (r.argument 2) (r.argument 3) result c') :
    Does c r (.ofWord result) c'
  /-- It unmaps pages. -/
  | unmaps (hr : r.syscall? = some .unmapPages) (result : Except Errno Word) (c' : Caller)
    (h : c.UnmapsPages (r.argument 0) (r.argument 1) result c') : Does c r (.ofWord result) c'
  /-- It protects pages. -/
  | protects (hr : r.syscall? = some .protectPages) (result : Except Errno Word) (c' : Caller)
    (h : c.ProtectsPages (r.argument 0) (r.argument 1) (r.argument 2) result c') :
    Does c r (.ofWord result) c'
  /-- It moves the break. -/
  | movesBreak (hr : r.syscall? = some .moveBreak) (w : Word) (c' : Caller)
    (h : c.MovesBreak (r.argument 0) w c') : Does c r (.ofWord (.ok w)) c'
  /-- It is none of these. -/
  | tells (disposition : Disposition) (c' : Caller) (h : c.Tells disposition c') :
    Does c r disposition c'

variable {c : Caller} {r : SyscallRequest}

/-- What a call that answers with a word comes to. -/
theorem does_of_call {P : Except Errno Word → Caller → Prop}
    (hcall : ∃ result c', c.call r = (.ofWord result, c') ∧ P result c')
    (h : ∀ result c', P result c' → c.Does r (.ofWord result) c') :
    c.Does r (c.call r).1 (c.call r).2 := by
  obtain ⟨result, c', heq, hP⟩ := hcall
  rw [heq]
  exact h result c' hP

theorem call_mapPages (hm : c.memory.WellFormed) (hr : r.syscall? = some .mapPages) :
    ∃ result c', c.call r = (.ofWord result, c') ∧
      c.MapsPages (r.argument 0) (r.argument 1) (r.argument 2) (r.argument 3) result c' := by
  obtain ⟨result, c', hrun, h⟩ := Call.run_mapPages hm (r.argument 0) (r.argument 1)
    (r.argument 2) (r.argument 3) (r.argument 4)
  exact ⟨result, c', call_of_run hr hrun rfl, h⟩

theorem call_unmapPages (hr : r.syscall? = some .unmapPages) (c : Caller) :
    ∃ result c', c.call r = (.ofWord result, c') ∧
      c.UnmapsPages (r.argument 0) (r.argument 1) result c' := by
  obtain ⟨result, c', hrun, h⟩ := Call.run_unmapPages c (r.argument 0) (r.argument 1)
  exact ⟨result, c', call_of_run hr hrun rfl, h⟩

theorem call_protectPages (hr : r.syscall? = some .protectPages) (c : Caller) :
    ∃ result c', c.call r = (.ofWord result, c') ∧
      c.ProtectsPages (r.argument 0) (r.argument 1) (r.argument 2) result c' := by
  obtain ⟨result, c', hrun, h⟩ :=
    Call.run_protectPages c (r.argument 0) (r.argument 1) (r.argument 2)
  exact ⟨result, c', call_of_run hr hrun rfl, h⟩

theorem does_of_call_writeGathered (hm : c.memory.WellFormed)
    (hr : r.syscall? = some .writeGathered) : c.Does r (c.call r).1 (c.call r).2 := by
  by_cases hcount : (r.argument 2).toNat ≤ Call.maxBuffers
  · refine does_of_call (call_writeGathered hm hr hcount) (.puts (.inr hr) _ _ ?_)
    exact List.length_take_le _ _
  · rw [call_writeGathered_of_lt hr (Nat.lt_of_not_le hcount)]
    exact .tells _ c (.failed .einval)

/-- A request comes to one of these. -/
theorem does_call (hm : c.memory.WellFormed) (r : SyscallRequest) :
    c.Does r (c.call r).1 (c.call r).2 := by
  have htells {x : Call Outcome} (hx : Call.ofRequest r = x) (h : Call.Tells x c) :
      c.Does r (c.call r).1 (c.call r).2 := by
    subst hx
    exact .tells _ _ h
  cases hr : r.syscall? with
  | none =>
    rw [SyscallRequest.syscall?] at hr
    refine htells (x := throw .enosys) ?_ (Call.tells_throw .enosys c)
    rw [Call.ofRequest, hr]
  | some call =>
    have hrequest : Call.ofRequest r = call.perform r.arguments := by
      rw [SyscallRequest.syscall?] at hr
      rw [Call.ofRequest, hr]
    have hnumber {n : Nat} (hn : n ∈ c.numbers) := Call.tells_pure hn
    cases call with
    | read => exact does_of_call (call_read hm hr) (.reads hr)
    | write =>
      refine does_of_call (call_write hm hr) (.puts (.inl hr) _ _ ?_)
      rw [length_addresses]
      exact Nat.min_le_right _ _
    | writeGathered => exact does_of_call_writeGathered hm hr
    | openFile =>
      have hopening : opening? r = some (Call.workingDirectory, r.argument 0, r.argument 1) := by
        rw [opening?, hr]
      exact does_of_call (call_open hopening c) (.opens _ _ _ hopening)
    | openAt =>
      have hopening : opening? r = some (r.argument 0, r.argument 1, r.argument 2) := by
        rw [opening?, hr]
      exact does_of_call (call_open hopening c) (.opens _ _ _ hopening)
    | reposition => exact does_of_call (call_reposition hr c) (.repositions hr)
    | close => exact does_of_call (call_close hr c) (.closes hr)
    | mapPages => exact does_of_call (call_mapPages hm hr) (.maps hr)
    | unmapPages => exact does_of_call (call_unmapPages hr c) (.unmaps hr)
    | protectPages => exact does_of_call (call_protectPages hr c) (.protects hr)
    | moveBreak =>
      obtain ⟨w, c', hcall, h⟩ := call_moveBreak hm hr
      rw [hcall]
      exact .movesBreak hr w c' h
    | getProcess => exact htells hrequest (hnumber (n := c.kernel.process) (by simp [numbers]))
    | getThread => exact htells hrequest (hnumber (n := c.thread.tid) (by simp [numbers]))
    | setThreadAddress => exact htells hrequest (hnumber (n := c.thread.tid) (by simp [numbers]))
    | getUser => exact htells hrequest (hnumber (n := c.kernel.user) (by simp [numbers]))
    | getEffectiveUser => exact htells hrequest (hnumber (n := c.kernel.user) (by simp [numbers]))
    | getGroup => exact htells hrequest (hnumber (n := c.kernel.group) (by simp [numbers]))
    | getEffectiveGroup => exact htells hrequest (hnumber (n := c.kernel.group) (by simp [numbers]))
    | describeSystem => exact htells hrequest (Call.acknowledges_store _ _ c).tells
    | segmentBase => exact htells hrequest (Call.acknowledges_segmentBase _ _ c).tells
    | exit => exact htells hrequest (.exit _)
    | exitProcess => exact htells hrequest (.exitProcess _)
    | signalProcess => exact htells hrequest (Call.tells_signal _ _ c)
    | signalThread =>
      exact htells hrequest (Call.tells_requirePositive_bind (Call.tells_signal _ _ c))
    | signalThreadOfProcess =>
      exact htells hrequest <| Call.tells_requirePositive_bind <|
        Call.tells_requirePositive_bind (Call.tells_signal _ _ c)

end Caller

end LongMode.Linux
