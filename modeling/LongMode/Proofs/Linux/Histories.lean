import LongMode.Proofs.Linux.Calls

/-!
Callers over time. Between the calls of a process its threads store to memory and take turns
(`Event`); what a caller comes to is the events applied one after the other (`Caller.after`).

* Memory stays well formed (`Caller.wellFormed_after`).
* Parts of the kernel stay what they are (`Caller.Agrees`) unless a call is made that is about them.
* A call that answers with a word does to its caller what its body does (`Caller.call_of_run`).
* Where each call accounts for the bytes that it moves, the bytes that all calls move account for
  what changes (`Caller.exists_moved`).
-/

set_option autoImplicit false
set_option relaxedAutoImplicit false

namespace LongMode.Linux

/-! ### Events -/

/-- Something that happens in a process. -/
inductive Event where
  /-- The running thread makes a call. -/
  | call (r : SyscallRequest)
  /-- The running thread stores bytes; nothing happens if it may not. -/
  | store (a : Address) (bytes : List UInt8)
  /-- It is the turn of a thread, with whatever is in its registers. -/
  | resume (thread : Thread)

namespace Caller

/-- What an event makes of a caller. -/
def step (c : Caller) : Event → Caller
  | .call r => (c.call r).2
  | .store a bytes =>
    match c.memory.write a bytes with
    | .ok memory => { c with memory }
    | .error _ => c
  | .resume thread => { c with thread }

/-- What events make of a caller, one after the other. -/
def after (c : Caller) (events : List Event) : Caller :=
  events.foldl step c

@[simp] theorem after_nil (c : Caller) : c.after [] = c := rfl

@[simp] theorem after_cons (c : Caller) (event : Event) (events : List Event) :
    c.after (event :: events) = (c.step event).after events := rfl

theorem after_concat (c : Caller) (events : List Event) (event : Event) :
    c.after (events ++ [event]) = (c.after events).step event := by
  rw [after, List.foldl_append]
  rfl

/-- The kernel stays what it is unless a call is made. -/
theorem kernel_step {event : Event} (h : ∀ r, event ≠ .call r) (c : Caller) :
    (c.step event).kernel = c.kernel := by
  cases event with
  | call r => exact absurd rfl (h r)
  | store a bytes =>
    rw [step]
    split <;> rfl
  | resume thread => rfl

theorem wellFormed_step {c : Caller} (hc : c.memory.WellFormed) (event : Event) :
    (c.step event).memory.WellFormed := by
  cases event with
  | call r => exact (succeeds_call hc r).wellFormed
  | store a bytes =>
    rw [step]
    split
    next memory hwrite => exact ((Memory.stored_write hwrite).succeeds hc).wellFormed
    next => exact hc
  | resume thread => exact hc

/-- What every event keeps holds after all of them. -/
theorem after_induction {P : Caller → Prop} {c : Caller} (hc : P c)
    (hstep : ∀ c event, P c → P (c.step event)) (events : List Event) : P (c.after events) := by
  induction events generalizing c with
  | nil => exact hc
  | cons event events ih => exact ih (hstep c event hc)

/-- Memory stays well formed. -/
theorem wellFormed_after {c : Caller} (hc : c.memory.WellFormed) (events : List Event) :
    (c.after events).memory.WellFormed :=
  after_induction (P := fun c ↦ c.memory.WellFormed) hc (fun _ event h ↦ wellFormed_step h event)
    events

/-! ### Parts of the kernel -/

/-- Callers whose kernels have something in common. -/
def Agrees {α : Type} (f : Kernel → α) (c c' : Caller) : Prop :=
  f c'.kernel = f c.kernel

instance isPreorder_agrees {α : Type} (f : Kernel → α) : IsPreorder Caller (Agrees f) where
  refl _ := rfl
  trans _ _ _ h h' := h'.trans h

instance lenient_agrees_heap : Lenient (Agrees Kernel.heap) where
  registers _ _ := rfl
  memory _ := rfl
  files _ _ _ := rfl

instance lenient_agrees_input : Lenient (Agrees Kernel.input) where
  registers _ _ := rfl
  memory _ := rfl
  files _ _ _ := rfl

/-! ### Bytes that calls move -/

/-- The bytes that calls of some kind move, one after the other. -/
inductive Moved (P : Caller → SyscallRequest → List UInt8 → Prop) :
    Caller → List Event → List UInt8 → Prop
  | nothing (c : Caller) : Moved P c [] []
  | call {c : Caller} {r : SyscallRequest} {bytes more : List UInt8} {events : List Event}
    (h : P c r bytes) (hmore : Moved P (c.step (.call r)) events more) :
    Moved P c (.call r :: events) (bytes ++ more)
  | other {c : Caller} {event : Event} {more : List UInt8} {events : List Event}
    (h : ∀ r bytes, event = .call r → ¬P c r bytes) (hmore : Moved P (c.step event) events more) :
    Moved P c (event :: events) more

/-- If the bytes that a call moves account for what it makes of the kernel, so do those that all
calls move. -/
theorem exists_moved {P : Caller → SyscallRequest → List UInt8 → Prop}
    {T : List UInt8 → Kernel → Kernel → Prop} (hnothing : ∀ k, T [] k k)
    (happend : ∀ {bytes more k k' k''}, T bytes k k' → T more k' k'' → T (bytes ++ more) k k'')
    (hcall : ∀ {c : Caller}, c.memory.WellFormed → ∀ r,
      (∃ bytes, P c r bytes ∧ T bytes c.kernel (c.call r).2.kernel) ∨
        (∀ bytes, ¬P c r bytes) ∧ T [] c.kernel (c.call r).2.kernel)
    {c : Caller} (hm : c.memory.WellFormed) (events : List Event) :
    ∃ bytes, c.Moved P events bytes ∧ T bytes c.kernel (c.after events).kernel := by
  induction events generalizing c with
  | nil => exact ⟨[], .nothing c, hnothing c.kernel⟩
  | cons event events ih =>
    obtain ⟨more, hmore, hrest⟩ := ih (wellFormed_step hm event)
    by_cases hevent : ∃ r, event = .call r
    · obtain ⟨r, rfl⟩ := hevent
      rcases hcall hm r with ⟨bytes, hmoves, hstep⟩ | ⟨hnot, hstep⟩
      · exact ⟨bytes ++ more, .call hmoves hmore, happend hstep hrest⟩
      · refine ⟨more, .other (fun r' bytes hr ↦ ?_) hmore, happend hstep hrest⟩
        obtain rfl := Event.call.inj hr
        exact hnot bytes
    · have hkernel := kernel_step (not_exists.mp hevent) c
      refine ⟨more, .other (fun r bytes hr ↦ absurd ⟨r, hr⟩ hevent) hmore, ?_⟩
      rw [after_cons, ← hkernel]
      exact hrest

end Caller

/-! ### Calls that answer with a word -/

/-- What follows a call that answers with a word or fails. -/
def Disposition.ofWord : Except Errno Word → Disposition
  | .ok w => answer (.ok w)
  | .error e => answer (.error e.number)

namespace Caller

/-- A call that answers with a word comes to what its body comes to. -/
theorem call_of_run {c c' : Caller} {r : SyscallRequest} {call : Syscall} {body : Call Word}
    {result : Except Errno Word} (hr : r.syscall? = some call)
    (hrun : body.run.run c = (result, c'))
    (hbody : call.perform r.arguments = (do return .value (← body))) :
    c.call r = (.ofWord result, c') := by
  have hrequest : Call.ofRequest r = (do return .value (← body)) := by
    rw [SyscallRequest.syscall?] at hr
    rw [Call.ofRequest, hr]
    exact hbody
  rw [Caller.call, hrequest]
  cases result with
  | error e =>
    rw [run_bind_of_error hrun]
    rfl
  | ok w =>
    rw [Ends.run_bind hrun]
    rfl

end Caller

end LongMode.Linux
