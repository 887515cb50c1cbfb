import LongMode.Proofs.Linux.Histories
import LongMode.Proofs.Memory.Changes

/-!
The heap: a break that moves byte by byte over memory that is mapped page by page.

* A call for a break always answers, and `Caller.MovesBreak` says all that it can come to: the break
  stays, or the heap keeps its pages, gets the ones up to the new end, or loses those behind it
  (`Caller.run_moveBreak`). Which of these it is depends on whether the break and the address can be
  rounded up to page boundaries, and on whether the pages between them are free (`Caller.Admits`).
* Whatever happens in a process, the bounds of its heap stay and the break is between them
  (`Caller.within_after`).
* Of the pages up to the limit those up to the break are mapped (`Caller.Tidy`), if that is so to
  begin with and no calls are made but for the break (`Caller.tidy_after`).
-/

set_option autoImplicit false
set_option relaxedAutoImplicit false

namespace LongMode

/-! ### Pages between two ends -/

/-- The pages from one page boundary to another. -/
def PageRange.between (a b : Address) : PageRange :=
  ⟨a.page, b.page - a.page⟩

theorem PageRange.contains_between {a b : Address} {number : Nat} :
    (between a b).contains number = true ↔ a.page ≤ number ∧ number < b.page := by
  rw [between, contains_iff]
  dsimp only
  omega

namespace Address

/-- A rounded address is the page boundary that it was rounded to, and not below the address. -/
theorem isPageAligned_of_pageCeil? {a b : Address} (h : a.pageCeil? = some b) :
    b.isPageAligned = true :=
  isPageAligned_iff.mpr ((AddressSpace.pageCeil?_spec a).2 b h).1

/-- The pages that begin below an address are those that begin below it rounded up. -/
theorem lt_iff_of_pageCeil? {a b : Address} (h : a.pageCeil? = some b) (number : Nat) :
    number * pageSize < a.toNat ↔ number < b.page := by
  have hspec := ((AddressSpace.pageCeil?_spec a).2 b h).2 number
  omega

/-- Lower addresses can be rounded up as well. -/
theorem pageCeil?_ne_none_of_le {a b : Address} (h : a ≤ b) (hb : b.pageCeil? ≠ none) :
    a.pageCeil? ≠ none := by
  rw [BitVec.le_def] at h
  simp only [pageCeil?, ne_eq, ite_eq_right_iff, reduceCtorEq, imp_false, not_not] at hb ⊢
  omega

theorem pageCeil?_ne_none_of_isPageAligned {a : Address} (h : a.isPageAligned = true) :
    a.pageCeil? ≠ none := by
  have haligned := toNat_of_isPageAligned h
  have hlt := a.toNat_lt
  simp only [pageCeil?, ne_eq, ite_eq_right_iff, reduceCtorEq, imp_false, not_not]
  simp only [pageSize, addressLimit] at *
  omega

theorem spans_between {a b : Address} (ha : a.isPageAligned = true) (hb : b.isPageAligned = true)
    (h : a.toNat < b.toNat) : a.Spans (b.toNat - a.toNat) ∧
      PageRange.ofBytes a (b.toNat - a.toNat) = .between a b := by
  have ha' := toNat_of_isPageAligned ha
  have hb' := toNat_of_isPageAligned hb
  have hlt := b.toNat_lt
  have hround : roundUpToPage (b.toNat - a.toNat) = b.toNat - a.toNat := by
    simp only [roundUpToPage, pageSize] at *
    omega
  refine ⟨⟨ha, by omega, by omega⟩, ?_⟩
  rw [PageRange.ofBytes, hround, PageRange.between]
  congr 1
  simp only [pageSize] at *
  omega

end Address

namespace Memory

variable {m : Memory} {a b : Address}

/-- Between an end and one that is not behind it there is no page. -/
theorem vacant_between_of_le (h : b.toNat ≤ a.toNat) : m.Vacant (.between a b) := by
  intro number hnumber
  rw [PageRange.contains_between] at hnumber
  have hpage : b.page ≤ a.page := Nat.div_le_div_right h
  omega

/-- Free pages between two ends can be mapped with zeros. -/
theorem exists_map_between (hm : m.WellFormed) (ha : a.isPageAligned = true)
    (hb : b.isPageAligned = true) (h : a.toNat < b.toNat) (p : Permissions)
    (hvacant : m.Vacant (.between a b)) :
    ∃ region m', m.map a (b.toNat - a.toNat) p .anonymous = .ok (region, m') ∧
      m.Renewed (.between a b) ⟨p, .anonymous, none⟩ m' := by
  obtain ⟨hspans, hpages⟩ := Address.spans_between ha hb h
  have hunused := Backing.unused_anonymous (PageRange.between a b).count m.frames
  obtain ⟨region, m', hinsert, -⟩ := exists_insertPages (p := p) hunused
  rw [map_of_vacant hspans (hpages ▸ hvacant), hpages]
  exact ⟨region, m', hinsert, renewed_insertPages hm hunused rfl (fun _ _ ↦ rfl) hinsert⟩

/-- Pages between two ends can be removed. -/
theorem exists_discard_between (m : Memory) (ha : a.isPageAligned = true)
    (hb : b.isPageAligned = true) (h : a.toNat < b.toNat) :
    ∃ count m', m.discard a (b.toNat - a.toNat) = .ok (count, m') ∧
      m.Removed (.between a b) m' := by
  obtain ⟨hspans, hpages⟩ := Address.spans_between ha hb h
  rw [← hpages]
  exact m.exists_discard hspans

end Memory

namespace Linux

/-- What new pages of the heap are like. -/
def Heap.attributes : PageAttributes :=
  ⟨.readWrite, .anonymous, none⟩

namespace Caller

/-- The break of a caller can be moved to an address: this is in bounds, it and the break can be
rounded up to page boundaries, and the pages between them, if there are any, are free. -/
structure Admits (c : Caller) (a : Address) : Prop where
  /-- It is not below the heap. -/
  low : c.kernel.heap.start ≤ a
  /-- It is not beyond the limit. -/
  high : a ≤ c.kernel.heap.limit
  /-- Nothing is in the way. -/
  vacant : ∃ oldEnd newEnd, c.kernel.heap.current.pageCeil? = some oldEnd ∧
    a.pageCeil? = some newEnd ∧ c.memory.Vacant (.between oldEnd newEnd)

/-- The caller with another break and other memory. -/
def withBreak (c : Caller) (a : Address) (memory : Memory) : Caller :=
  { c with kernel := { c.kernel with heap := { c.kernel.heap with current := a } }, memory }

/-- What a call for a break comes to: the answer, and the caller after it. -/
inductive MovesBreak (c : Caller) (a : Address) : Word → Caller → Prop
  /-- The break cannot be moved there: the answer is where it is, and nothing changes. -/
  | refused (h : ¬c.Admits a) : MovesBreak c a c.kernel.heap.current c
  /-- The heap keeps its pages. -/
  | kept (h : c.Admits a) (stop : Address) (hold : c.kernel.heap.current.pageCeil? = some stop)
    (hnew : a.pageCeil? = some stop) : MovesBreak c a a (c.withBreak a c.memory)
  /-- The heap gets the pages up to the new end, which were free, with bytes that are zero. -/
  | grown (h : c.Admits a) (oldEnd newEnd : Address)
    (hold : c.kernel.heap.current.pageCeil? = some oldEnd) (hnew : a.pageCeil? = some newEnd)
    (hlt : oldEnd < newEnd) (hvacant : c.memory.Vacant (.between oldEnd newEnd)) (memory : Memory)
    (hmemory : c.memory.Renewed (.between oldEnd newEnd) Heap.attributes memory) :
    MovesBreak c a a (c.withBreak a memory)
  /-- The pages from the new end on are removed. -/
  | shrunk (h : c.Admits a) (oldEnd newEnd : Address)
    (hold : c.kernel.heap.current.pageCeil? = some oldEnd) (hnew : a.pageCeil? = some newEnd)
    (hlt : newEnd < oldEnd) (memory : Memory)
    (hmemory : c.memory.Removed (.between newEnd oldEnd) memory) :
    MovesBreak c a a (c.withBreak a memory)

theorem admits_iff {c : Caller} {a oldEnd newEnd : Address}
    (hold : c.kernel.heap.current.pageCeil? = some oldEnd) (hnew : a.pageCeil? = some newEnd) :
    c.Admits a ↔ c.kernel.heap.start ≤ a ∧ a ≤ c.kernel.heap.limit ∧
      c.memory.Vacant (.between oldEnd newEnd) := by
  constructor
  · rintro ⟨hlow, hhigh, oldEnd', newEnd', hold', hnew', hvacant⟩
    cases hold.symm.trans hold'
    cases hnew.symm.trans hnew'
    exact ⟨hlow, hhigh, hvacant⟩
  · rintro ⟨hlow, hhigh, hvacant⟩
    exact ⟨hlow, hhigh, oldEnd, newEnd, hold, hnew, hvacant⟩

/-- Moving the break always answers, with what `MovesBreak` says. -/
theorem run_moveBreak {c : Caller} (hm : c.memory.WellFormed) (a : Address) :
    ∃ w c', (Call.moveBreak a).run.run c = (.ok w, c') ∧ c.MovesBreak a w c' := by
  rw [Call.moveBreak, (Call.ends_kernel c).run_bind]
  extract_lets heap accept
  have haccept (memory : Memory) : accept.run.run { c with memory } =
    (.ok a, c.withBreak a memory) := rfl
  clear_value accept
  split
  next hrange =>
    refine ⟨_, _, rfl, .refused fun h ↦ ?_⟩
    rcases hrange with hlow | hhigh
    · exact absurd h.low (BitVec.not_le.mpr hlow)
    · exact absurd h.high (BitVec.not_le.mpr hhigh)
  next hrange =>
    rw [not_or, Nat.not_lt, Nat.not_lt] at hrange
    split
    next oldEnd newEnd hold hnew =>
      have hadmits : c.Admits a ↔ c.memory.Vacant (.between oldEnd newEnd) :=
        (admits_iff hold hnew).trans ⟨fun h ↦ h.2.2, fun h ↦ ⟨hrange.1, hrange.2, h⟩⟩
      have haligned := Address.isPageAligned_of_pageCeil? hold
      have haligned' := Address.isPageAligned_of_pageCeil? hnew
      split
      next hlt =>
        rw [(ends_get c).run_bind]
        by_cases hvacant : c.memory.Vacant (.between oldEnd newEnd)
        · obtain ⟨region, memory, hmap, hrenewed⟩ :=
            Memory.exists_map_between hm haligned haligned' hlt .readWrite hvacant
          rw [hmap]
          exact ⟨a, _, haccept memory, .grown (hadmits.mpr hvacant) oldEnd newEnd hold hnew hlt
            hvacant memory hrenewed⟩
        · have hpages := (Address.spans_between haligned haligned' hlt).2
          obtain ⟨e, he⟩ := Memory.exists_map_eq_error (p := .readWrite) (b := .anonymous)
            (hpages ▸ hvacant)
          rw [he]
          exact ⟨_, c, rfl, .refused (mt hadmits.mp hvacant)⟩
      next hle =>
        have hadmitted := hadmits.mpr (Memory.vacant_between_of_le (Nat.le_of_not_lt hle))
        split
        next hlt =>
          obtain ⟨count, memory, hdiscard, hremoved⟩ :=
            c.memory.exists_discard_between haligned' haligned hlt
          rw [(ends_get c).run_bind, hdiscard]
          exact ⟨a, _, haccept memory, .shrunk hadmitted oldEnd newEnd hold hnew hlt memory
            hremoved⟩
        next hge =>
          have hsame : oldEnd = newEnd :=
            BitVec.eq_of_toNat_eq (Nat.le_antisymm (Nat.le_of_not_lt hge) (Nat.le_of_not_lt hle))
          subst hsame
          exact ⟨a, _, haccept c.memory, .kept hadmitted oldEnd hold hnew⟩
    next hnone =>
      refine ⟨_, _, rfl, .refused fun h ↦ ?_⟩
      obtain ⟨oldEnd, newEnd, hold, hnew, -⟩ := h.vacant
      exact hnone oldEnd newEnd hold hnew

/-- A call for a break always answers. -/
theorem call_moveBreak {c : Caller} (hm : c.memory.WellFormed) {r : SyscallRequest}
    (hr : r.syscall? = some .moveBreak) :
    ∃ w c', c.call r = (.answer (.ok w), c') ∧ c.MovesBreak (r.argument 0) w c' := by
  obtain ⟨w, c', hrun, hmoves⟩ := run_moveBreak hm (r.argument 0)
  exact ⟨w, c', call_of_run hr hrun rfl, hmoves⟩

end Caller

/-! ### The heap over time -/

/-- Only a call for a break is about the heap. -/
theorem Syscall.eq_moveBreak_of_part? {call : Syscall} (h : call.part? = some .heap) :
    call = moveBreak := by
  cases call <;> first | rfl | cases h

namespace Heap

/-- A heap that has the start and the limit of another one, and its break between them, where it
can be rounded up to a page boundary. -/
structure Within (heap h : Heap) : Prop where
  /-- The start is the same. -/
  start : h.start = heap.start
  /-- The limit is the same. -/
  limit : h.limit = heap.limit
  /-- The break is not below the start. -/
  low : heap.start ≤ h.current
  /-- The break is not above the limit. -/
  high : h.current ≤ heap.limit
  /-- The break can be rounded up. -/
  round : h.current.pageCeil? ≠ none

theorem within_ofLimit {start : Address} (h : start.isPageAligned = true) (bytes : Nat) :
    (ofLimit start bytes).Within (ofLimit start bytes) := by
  refine ⟨rfl, rfl, BitVec.le_refl _, ?_, Address.pageCeil?_ne_none_of_isPageAligned h⟩
  have hlt := start.toNat_lt
  simp only [ofLimit, BitVec.le_def, BitVec.toNat_ofNat, addressLimit] at *
  omega

/-- The pages of a heap up to its limit. -/
def Reserves (h : Heap) (number : Nat) : Prop :=
  h.start.toNat ≤ number * pageSize ∧ number * pageSize < h.limit.toNat

/-- The pages of a heap up to its break. -/
def Holds (h : Heap) (number : Nat) : Prop :=
  h.start.toNat ≤ number * pageSize ∧ number * pageSize < h.current.toNat

/-- Of the pages up to the limit, the heap holds those before the rounded break. -/
theorem holds_iff {h : Heap} {stop : Address} (hstop : h.current.pageCeil? = some stop)
    {number : Nat} (hnumber : h.Reserves number) : h.Holds number ↔ number < stop.page := by
  rw [Holds, Address.lt_iff_of_pageCeil? hstop, and_iff_right hnumber.1]

end Heap

namespace Caller

variable {c c' : Caller} {a : Address} {w : Word} {heap : Heap}

/-- A call that is not for a break leaves the heap alone. -/
theorem heap_call {r : SyscallRequest} (hr : r.syscall? ≠ some .moveBreak) (c : Caller) :
    (c.call r).2.kernel.heap = c.kernel.heap := by
  refine c.related_call (R := Agrees Kernel.heap) r fun call hcall part hpart ↦ ?_
  cases part with
  | input => exact fun _ _ ↦ rfl
  | output => exact fun _ _ _ ↦ rfl
  | heap =>
    rw [Syscall.eq_moveBreak_of_part? hpart] at hcall
    exact absurd hcall hr

theorem MovesBreak.within (h : c.MovesBreak a w c') (hc : heap.Within c.kernel.heap) :
    heap.Within c'.kernel.heap := by
  have hmoved (hadmits : c.Admits a) (memory : Memory) :
      heap.Within (c.withBreak a memory).kernel.heap := by
    obtain ⟨_, _, -, hnew, -⟩ := hadmits.vacant
    refine ⟨hc.start, hc.limit, ?_, ?_, Option.ne_none_iff_exists'.mpr ⟨_, hnew⟩⟩
    · rw [← hc.start]
      exact hadmits.low
    · rw [← hc.limit]
      exact hadmits.high
  cases h with
  | refused => exact hc
  | kept hadmits => exact hmoved hadmits _
  | grown hadmits => exact hmoved hadmits _
  | shrunk hadmits => exact hmoved hadmits _

/-- The break stays between the start and the limit of the heap. -/
theorem within_step (hm : c.memory.WellFormed) (hc : heap.Within c.kernel.heap) (event : Event) :
    heap.Within (c.step event).kernel.heap := by
  by_cases hevent : ∃ r, event = .call r
  · obtain ⟨r, rfl⟩ := hevent
    by_cases hr : r.syscall? = some .moveBreak
    · obtain ⟨w, c', hcall, hmoves⟩ := call_moveBreak hm hr
      rw [step, hcall]
      exact hmoves.within hc
    · rw [step, heap_call hr]
      exact hc
  · rw [kernel_step (not_exists.mp hevent)]
    exact hc

theorem within_after (hm : c.memory.WellFormed) (hc : heap.Within c.kernel.heap)
    (events : List Event) : heap.Within (c.after events).kernel.heap := by
  have hboth := after_induction (P := fun c ↦ c.memory.WellFormed ∧ heap.Within c.kernel.heap)
    ⟨hm, hc⟩ (fun c event h ↦ ⟨wellFormed_step h.1 event, within_step h.1 h.2 event⟩) events
  exact hboth.2

/-! ### A heap of its own -/

/-- Of the pages up to the limit of the heap, those up to the break are mapped. -/
def Tidy (c : Caller) : Prop :=
  ∀ number, c.kernel.heap.Reserves number →
    (c.memory.space.pages[number]? ≠ none ↔ c.kernel.heap.Holds number)

/-- A heap that has no bytes yet is tidy if its pages are free. -/
theorem tidy_of_vacant (hempty : c.kernel.heap.current = c.kernel.heap.start)
    (h : ∀ number, c.kernel.heap.Reserves number → c.memory.space.pages[number]? = none) :
    c.Tidy := by
  intro number hnumber
  refine iff_of_false (not_not_intro (h number hnumber)) fun hholds ↦ ?_
  rw [Heap.Holds, hempty] at hholds
  exact Nat.not_lt_of_le hholds.1 hholds.2

/-- The break of a tidy heap can be moved anywhere within bounds. -/
theorem Tidy.admits (h : c.Tidy) (hc : heap.Within c.kernel.heap) (hlow : heap.start ≤ a)
    (hhigh : a ≤ heap.limit) (hround : a.pageCeil? ≠ none) : c.Admits a := by
  obtain ⟨oldEnd, hold⟩ := Option.ne_none_iff_exists'.mp hc.round
  obtain ⟨newEnd, hnew⟩ := Option.ne_none_iff_exists'.mp hround
  refine (admits_iff hold hnew).mpr ⟨hc.start ▸ hlow, hc.limit ▸ hhigh, fun number hnumber ↦ ?_⟩
  rw [PageRange.contains_between] at hnumber
  have hbehind := mt (Address.lt_iff_of_pageCeil? hold number).mp (Nat.not_lt_of_le hnumber.1)
  have hbelow := (Address.lt_iff_of_pageCeil? hnew number).mpr hnumber.2
  have hstart : c.kernel.heap.start ≤ c.kernel.heap.current := hc.start ▸ hc.low
  have hlimit : a ≤ c.kernel.heap.limit := hc.limit ▸ hhigh
  rw [BitVec.le_def] at hstart hlimit
  by_contra hmapped
  exact hbehind ((h number ⟨by omega, by omega⟩).mp hmapped).2

/-- A heap is tidy after the break was moved if the pages before the rounded break are mapped. -/
theorem tidy_withBreak {memory : Memory} {stop : Address} (hstop : a.pageCeil? = some stop)
    (h : ∀ number, c.kernel.heap.Reserves number →
      (memory.space.pages[number]? ≠ none ↔ number < stop.page)) : (c.withBreak a memory).Tidy := by
  intro number hnumber
  have hceil : (c.withBreak a memory).kernel.heap.current.pageCeil? = some stop := hstop
  exact (h number hnumber).trans (Heap.holds_iff hceil hnumber).symm

/-- Moving the break keeps a heap tidy. -/
theorem MovesBreak.tidy (h : c.MovesBreak a w c') (hc : c.Tidy) : c'.Tidy := by
  have hbefore {stop : Address} (hstop : c.kernel.heap.current.pageCeil? = some stop)
      (number : Nat) (hnumber : c.kernel.heap.Reserves number) :
      c.memory.space.pages[number]? ≠ none ↔ number < stop.page :=
    (hc number hnumber).trans (Heap.holds_iff hstop hnumber)
  cases h with
  | refused => exact hc
  | kept _ stop hold hnew => exact tidy_withBreak hnew (hbefore hold)
  | grown _ oldEnd newEnd hold hnew hlt _ memory hmemory =>
    refine tidy_withBreak hnew fun number hnumber ↦ ?_
    have hpage : oldEnd.page ≤ newEnd.page := Nat.div_le_div_right (Nat.le_of_lt hlt)
    by_cases hin : (PageRange.between oldEnd newEnd).contains number = true
    · rw [hmemory.inside number hin]
      exact iff_of_true (Option.some_ne_none _) (PageRange.contains_between.mp hin).2
    · rw [hmemory.outside number hin, hbefore hold number hnumber]
      rw [PageRange.contains_between] at hin
      omega
  | shrunk _ oldEnd newEnd hold hnew hlt memory hmemory =>
    refine tidy_withBreak hnew fun number hnumber ↦ ?_
    have hpage : newEnd.page ≤ oldEnd.page := Nat.div_le_div_right (Nat.le_of_lt hlt)
    rw [hmemory.pages number]
    split
    next hin =>
      rw [PageRange.contains_between] at hin
      exact iff_of_false (not_not_intro rfl) (Nat.not_lt_of_le hin.1)
    next hout =>
      rw [hbefore hold number hnumber]
      rw [PageRange.contains_between] at hout
      omega

/-- A heap stays tidy if no calls are made but for its break. -/
theorem tidy_step (hm : c.memory.WellFormed) (hc : c.Tidy) {event : Event}
    (hevent : ∀ r, event = .call r → r.syscall? = some .moveBreak) : (c.step event).Tidy := by
  cases event with
  | call r =>
    obtain ⟨w, c', hcall, hmoves⟩ := call_moveBreak hm (hevent r rfl)
    rw [step, hcall]
    exact hmoves.tidy hc
  | store a bytes =>
    rw [step]
    split
    next memory hwrite =>
      intro number hnumber
      rw [(Memory.stored_write hwrite).space]
      exact hc number hnumber
    next => exact hc
  | resume thread => exact hc

theorem tidy_after (hm : c.memory.WellFormed) (hc : c.Tidy) {events : List Event}
    (hevents : ∀ r, .call r ∈ events → r.syscall? = some .moveBreak) : (c.after events).Tidy := by
  induction events generalizing c with
  | nil => exact hc
  | cons event events ih =>
    refine ih (wellFormed_step hm event) (tidy_step hm hc fun r hr ↦ ?_) fun r hr ↦ ?_
    · exact hevents r (hr ▸ List.mem_cons_self)
    · exact hevents r (List.mem_cons_of_mem _ hr)

/-- The break is moved where it can be. -/
theorem call_moveBreak_of_admits (hm : c.memory.WellFormed) {r : SyscallRequest}
    (hr : r.syscall? = some .moveBreak) (h : c.Admits (r.argument 0)) :
    (c.call r).1 = .answer (.ok (r.argument 0)) ∧
      (c.call r).2.kernel.heap.current = r.argument 0 := by
  obtain ⟨w, c', hcall, hmoves⟩ := call_moveBreak hm hr
  rw [hcall]
  cases hmoves with
  | refused hnot => exact absurd h hnot
  | kept => exact ⟨rfl, rfl⟩
  | grown => exact ⟨rfl, rfl⟩
  | shrunk => exact ⟨rfl, rfl⟩

/-- A heap begins at any page boundary, with any limit, over any memory that a history can lead to;
then calls of all kinds are made, between which threads store and take turns. The bounds of the
heap never change, and its break never leaves them. A call for a break always answers: with the
break, which it could not move and without changing anything, or with the address that was asked
for, which is the break from then on. The pages that a heap gets were free and are readable,
writable and zero; those that it loses are the ones behind the new break, rounded up, and before
the old one; no other page is touched. If all calls are for the break, and the pages of the heap up
to its limit are free to begin with, then of these the ones before the break are mapped, at all
times, and the break can be moved to every address within bounds. (Only a limit in the last page of
memory cannot be rounded up to a page boundary; only then are there addresses within bounds that
cannot either, and to these the break does not move.) -/
theorem heap_after_events (windows : Nat → MapWindow) (history : List Action)
    (k first bytes : Nat) (kernel : Kernel) (thread : Thread) (events : List Event) :
    let heap := Heap.ofLimit (.ofPage first) bytes
    let begun : Caller :=
      ⟨{ kernel with heap }, ((World.start windows).after history).memory k, thread⟩
    let c := begun.after events
    heap.Within c.kernel.heap ∧
    (∀ r : SyscallRequest, r.syscall? = some .moveBreak →
      ∃ w c', c.call r = (.answer (.ok w), c') ∧ c.MovesBreak (r.argument 0) w c') ∧
    ((∀ r, .call r ∈ events → r.syscall? = some .moveBreak) →
      (∀ number, heap.Reserves number → begun.memory.space.pages[number]? = none) →
      (∀ number, heap.Reserves number →
        (c.memory.space.pages[number]? ≠ none ↔ c.kernel.heap.Holds number)) ∧
      ∀ r : SyscallRequest, r.syscall? = some .moveBreak →
        heap.start ≤ r.argument 0 → r.argument 0 ≤ heap.limit →
        (heap.limit.pageCeil? = none → Address.pageCeil? (r.argument 0) ≠ none) →
        (c.call r).1 = .answer (.ok (r.argument 0)) ∧
          (c.call r).2.kernel.heap.current = r.argument 0) := by
  intro heap begun c
  have hbegun : begun.memory.WellFormed := (World.wellFormed_after windows history).memory k
  have hm : c.memory.WellFormed := wellFormed_after hbegun events
  have hheap : heap.Within c.kernel.heap :=
    within_after hbegun (Heap.within_ofLimit (Address.isPageAligned_ofPage first) bytes) events
  refine ⟨hheap, fun r hr ↦ call_moveBreak hm hr, fun hevents hfree ↦ ?_⟩
  have htidy : c.Tidy := tidy_after hbegun (tidy_of_vacant rfl hfree) hevents
  constructor
  · intro number hnumber
    refine htidy number ?_
    rwa [Heap.Reserves, hheap.start, hheap.limit]
  · intro r hr hlow hhigh hround
    have hceil : Address.pageCeil? (r.argument 0) ≠ none := by
      by_cases hlimit : heap.limit.pageCeil? = none
      · exact hround hlimit
      · exact Address.pageCeil?_ne_none_of_le hhigh hlimit
    exact call_moveBreak_of_admits hm hr (htidy.admits hheap hlow hhigh hceil)

end Caller

end Linux

end LongMode
