import LongMode.Proofs.Linux.Dispatch
import LongMode.Proofs.Register.File

/-!
Answers of calls as a program sees them. A program takes the words from 2^64 - 4095 on for errors.
No call answers with such a word when it succeeds (`Caller.answer_lt`): sizes and descriptors are
small, positions are below 2^63, and an address is the first one of a page or can be rounded up to
one, so that it is not in the last page but for its first byte.
-/

set_option autoImplicit false
set_option relaxedAutoImplicit false

namespace LongMode.Linux

/-- The words that a program takes for errors begin here. -/
def errorWords : Nat :=
  2 ^ 64 - 4095

/-- The numbers of a process, its user and its group have 32 bits. -/
structure Kernel.Numbered (k : Kernel) : Prop where
  process : k.process < 2 ^ 32
  user : k.user < 2 ^ 32
  group : k.group < 2 ^ 32

/-! ### Errors -/

theorem Errno.toNat_word (e : Errno) :
    (SyscallReturn.error e.number).word.toNat = 2 ^ 64 - e.number := by
  cases e <;> decide

theorem Errno.errorWords_le (e : Errno) :
    errorWords ≤ (SyscallReturn.error e.number).word.toNat := by
  cases e <;> decide

/-! ### Addresses -/

theorem lt_errorWords_of_isPageAligned {a : Address} (h : a.isPageAligned = true) :
    a.toNat < errorWords := by
  have haligned := Address.toNat_of_isPageAligned h
  have hlt := a.toNat_lt
  simp only [errorWords, pageSize, addressLimit] at *
  omega

theorem lt_errorWords_of_pageCeil? {a : Address} (h : a.pageCeil? ≠ none) :
    a.toNat < errorWords := by
  simp only [Address.pageCeil?, ne_eq, ite_eq_right_iff, reduceCtorEq, imp_false, not_not] at h
  simp only [errorWords, pageSize, addressLimit] at *
  omega

theorem lt_errorWords_ofNat {n : Nat} (h : n < errorWords) :
    (BitVec.ofNat 64 n).toNat < errorWords := by
  rw [BitVec.toNat_ofNat]
  exact Nat.lt_of_le_of_lt (Nat.mod_le _ _) h

/-- New pages begin at a page boundary. -/
theorem Placed.isPageAligned {m : Memory} {a v : Address} {length : Nat}
    {placement : Call.Placement} (h : Placed m a length placement v) : v.isPageAligned = true := by
  cases h with
  | vacant h => exact h.spans.aligned
  | replace h => exact h.aligned
  | honoured _ h => exact h.spans.aligned
  | lowest _ _ hv => exact hv.aligned

namespace Caller

variable {c c' : Caller} {r : SyscallRequest} {w : Word} {heap : Heap}

/-! ### Values -/

instance lenient_agrees_numbers :
    Lenient (Agrees fun k ↦ (k.process, k.user, k.group)) where
  registers _ _ := rfl
  memory _ := rfl
  files _ _ _ := rfl

theorem numbered_step (hc : c.kernel.Numbered) (event : Event) :
    (c.step event).kernel.Numbered := by
  by_cases hevent : ∃ r, event = .call r
  · obtain ⟨r, rfl⟩ := hevent
    have hsame : c.Agrees (fun k ↦ (k.process, k.user, k.group)) (c.call r).2 := by
      refine c.related_call r fun call hcall part hpart ↦ ?_
      cases part with
      | input => exact fun _ _ ↦ rfl
      | output => exact fun _ _ _ ↦ rfl
      | heap => exact fun _ _ ↦ rfl
    simp only [Agrees, Prod.mk.injEq] at hsame
    obtain ⟨hprocess, huser, hgroup⟩ := hsame
    exact ⟨hprocess ▸ hc.process, huser ▸ hc.user, hgroup ▸ hc.group⟩
  · rwa [kernel_step (not_exists.mp hevent)]

theorem numbered_after (hc : c.kernel.Numbered) (events : List Event) :
    (c.after events).kernel.Numbered :=
  after_induction (P := fun c ↦ c.kernel.Numbered) hc (fun _ event h ↦ numbered_step h event) events

theorem Reads.lt {descriptor buffer count : Word} (h : c.Reads descriptor buffer count (.ok w) c') :
    w.toNat < errorWords := by
  have hlt {n : Nat} (hn : n ≤ Call.quota count) : (BitVec.ofNat 64 n).toNat < errorWords := by
    refine lt_errorWords_ofNat (Nat.lt_of_le_of_lt hn ?_)
    exact Nat.lt_of_le_of_lt (Nat.min_le_right _ _) (by decide)
  cases h with
  | input _ _ bytes hbytes =>
    rw [hbytes]
    exact hlt (List.length_take_le _ _)
  | file f f' _ _ _ bytes hread => exact hlt (Call.length_le_of_read hread)

theorem Puts.lt {descriptor : Word} {needed places : List Address}
    (h : c.Puts descriptor needed places (.ok w) c') (hplaces : places.length ≤ Call.maxTransfer) :
    w.toNat < errorWords := by
  have hlt := lt_errorWords_ofNat (Nat.lt_of_le_of_lt hplaces (by decide))
  cases h <;> exact hlt

theorem Opens.lt {a : Address} {flags : Word} (h : c.Opens a flags (.ok w) c') :
    w.toNat < errorWords := by
  cases h with
  | opened _ _ _ _ hw => exact Nat.lt_trans hw.limit (by decide)

theorem Repositions.lt {descriptor offset base : Word}
    (h : c.Repositions descriptor offset base (.ok w) c') : w.toNat < errorWords := by
  cases h with
  | moved _ _ _ _ _ _ hlimit => exact lt_errorWords_ofNat (Nat.lt_trans hlimit (by decide))

theorem MapsPages.lt {a : Address} {length protection flags : Word}
    (h : c.MapsPages a length protection flags (.ok w) c') : w.toNat < errorWords := by
  cases h with
  | placed _ _ hplace => exact lt_errorWords_of_isPageAligned hplace.isPageAligned

theorem MovesBreak.lt {a : Address} (h : c.MovesBreak a w c') (hheap : heap.Within c.kernel.heap) :
    w.toNat < errorWords := by
  have hlt {stop : Address} (hstop : a.pageCeil? = some stop) : a.toNat < errorWords :=
    lt_errorWords_of_pageCeil? (hstop ▸ Option.some_ne_none stop)
  cases h with
  | refused => exact lt_errorWords_of_pageCeil? hheap.round
  | kept _ _ _ hnew => exact hlt hnew
  | grown _ _ _ _ hnew => exact hlt hnew
  | shrunk _ _ _ _ hnew => exact hlt hnew

theorem lt_of_mem_numbers (hc : c.kernel.Numbered) (hthread : c.thread.tid < 2 ^ 32) {n : Nat}
    (hn : n ∈ c.numbers) : n < 2 ^ 32 := by
  have hprocess := hc.process
  have huser := hc.user
  have hgroup := hc.group
  simp only [numbers, List.mem_cons, List.not_mem_nil, or_false] at hn
  omega

theorem eq_ok_of_ofWord {result : Except Errno Word}
    (h : Disposition.ofWord result = .answer (.ok w)) : result = .ok w := by
  cases result with
  | ok v => cases h; rfl
  | error e => cases h

/-- No call succeeds with a word that a program takes for an error. -/
theorem answer_lt (hm : c.memory.WellFormed) (hheap : heap.Within c.kernel.heap)
    (hnumbers : c.kernel.Numbered) (hthread : c.thread.tid < 2 ^ 32)
    (h : (c.call r).1 = .answer (.ok w)) : w.toNat < errorWords := by
  have hdoes := does_call hm r
  generalize c.call r = out at hdoes h
  obtain ⟨disposition, next⟩ := out
  dsimp only at hdoes h
  cases hdoes with
  | reads _ result _ hreads =>
    obtain rfl := eq_ok_of_ofWord h
    exact hreads.lt
  | puts _ _ _ hplaces result _ hputs =>
    obtain rfl := eq_ok_of_ofWord h
    exact hputs.lt hplaces
  | opens _ _ _ _ result _ hopens =>
    obtain rfl := eq_ok_of_ofWord h
    exact hopens.lt
  | repositions _ result _ hmoves =>
    obtain rfl := eq_ok_of_ofWord h
    exact hmoves.lt
  | closes _ result _ hcloses =>
    obtain rfl := eq_ok_of_ofWord h
    cases hcloses
    decide
  | maps _ result _ hmaps =>
    obtain rfl := eq_ok_of_ofWord h
    exact hmaps.lt
  | unmaps _ result _ hunmaps =>
    obtain rfl := eq_ok_of_ofWord h
    cases hunmaps
    decide
  | protects _ result _ hprotects =>
    obtain rfl := eq_ok_of_ofWord h
    cases hprotects <;> decide
  | movesBreak _ v _ hmoves =>
    obtain rfl := Except.ok.inj (eq_ok_of_ofWord h)
    exact hmoves.lt hheap
  | tells _ _ htells =>
    cases htells with
    | number n hn =>
      obtain rfl := Except.ok.inj (eq_ok_of_ofWord h)
      exact lt_errorWords_ofNat (Nat.lt_trans (lt_of_mem_numbers hnumbers hthread hn) (by decide))
    | failed e => cases h
    | exit status => cases h
    | exitProcess status => cases h

/-- An error that a call answers with is that of some cause. -/
theorem exists_errno {n : Int} (h : (c.call r).1 = .answer (.error n)) :
    ∃ e : Errno, n = e.number := by
  change Disposition.ofResult ((Call.ofRequest r).run.run c).1 = _ at h
  cases hresult : ((Call.ofRequest r).run.run c).1 with
  | error e =>
    rw [hresult] at h
    cases h
    exact ⟨e, rfl⟩
  | ok outcome =>
    rw [hresult] at h
    cases outcome <;> cases h

/-- A process has a heap that begins at any page boundary, with any limit, any other kernel, whose
numbers have 32 bits, and any memory that a history can lead to; then anything happens in it. If any
request is answered then, by whatever call or none, and whatever its arguments are, then the word
that the thread gets in RAX is from 2^64 - 4095 on just if the answer is an error, and it is then
2^64 less the number of the error. -/
theorem answers_after_events (windows : Nat → MapWindow) (history : List Action)
    (k first bytes : Nat) (kernel : Kernel) (hkernel : kernel.Numbered) (thread : Thread)
    (events : List Event) :
    let heap := Heap.ofLimit (.ofPage first) bytes
    let begun : Caller :=
      ⟨{ kernel with heap }, ((World.start windows).after history).memory k, thread⟩
    let c := begun.after events
    c.thread.tid < 2 ^ 32 → ∀ r answer, (c.call r).1 = .answer answer →
      (2 ^ 64 - 4095 ≤ answer.word.toNat ↔ ∃ number, answer = .error number) ∧
      (∀ number, answer = .error number →
        ∃ e : Errno, number = e.number ∧ answer.word.toNat = 2 ^ 64 - e.number) ∧
      (∀ t t' : Thread, t.completeSyscall answer = .ok t' →
        t'.registers.get Register.rax = answer.word) := by
  intro heap begun c hthread r answer hanswer
  have hbegun : begun.memory.WellFormed := (World.wellFormed_after windows history).memory k
  have hm : c.memory.WellFormed := wellFormed_after hbegun events
  have hheap : heap.Within c.kernel.heap :=
    within_after hbegun (Heap.within_ofLimit (Address.isPageAligned_ofPage first) bytes) events
  have hnumbers : c.kernel.Numbered :=
    numbered_after ⟨hkernel.process, hkernel.user, hkernel.group⟩ events
  refine ⟨?_, ?_, fun t t' hcomplete ↦ ?_⟩
  · cases answer with
    | ok w =>
      have hlt := answer_lt hm hheap hnumbers hthread hanswer
      exact iff_of_false (Nat.not_le_of_lt hlt) fun ⟨_, h⟩ ↦ nomatch h
    | error number =>
      obtain ⟨e, rfl⟩ := exists_errno hanswer
      exact iff_of_true e.errorWords_le ⟨_, rfl⟩
  · rintro number rfl
    obtain ⟨e, rfl⟩ := exists_errno hanswer
    exact ⟨e, rfl, e.toNat_word⟩
  · rw [Thread.completeSyscall] at hcomplete
    split at hcomplete
    · cases hcomplete
    · obtain rfl := Except.ok.inj hcomplete
      exact (RegisterFile.get_set _ _ _ _).trans (if_pos rfl)

/-- A call for an unknown number. -/
theorem answers_after_events_unknown :
    let c : Caller := ⟨{ heap := .ofLimit (.ofPage 16) 0 },
      ((World.start fun _ ↦ {}).after []).memory 0, { tid := 1, registers := .start 0x1000 0 }⟩
    let r : SyscallRequest := ⟨999, #v[0, 0, 0, 0, 0, 0]⟩
    (c.call r).1 = .answer (.error 38) ∧
      ∃ e : Errno, (38 : Int) = e.number ∧
        (SyscallReturn.error 38).word.toNat = 2 ^ 64 - e.number := by
  intro c r
  have hanswer : (c.call r).1 = .answer (.error 38) := by decide +kernel
  obtain ⟨-, hnumber, -⟩ := answers_after_events (fun _ ↦ {}) [] 0 16 0 c.kernel
    ⟨by decide, by decide, by decide⟩ c.thread [] (by decide) r _ hanswer
  exact ⟨hanswer, hnumber 38 rfl⟩

end Caller

end LongMode.Linux
