import LongMode.Core.Basic
import LongMode.Proofs.Machine.Execute
import LongMode.Proofs.Machine.Snapshots
import LongMode.Proofs.Register.File

/-!
Traces can be followed without the machine. The parts of the registers that a trace speaks of are
independent of each other (`RegisterSlot.read_write_of_ne`) and, with the segment selectors, all
that there is to a register file (`RegisterFile.seen_eq_of_reads`), so the changes from one register
file to another lead from the one to the other (`RegisterFile.adjustAll?_changes`). The stores of an
instruction lead from a snapshot of memory to a snapshot of what the instruction leaves
(`Memory.Mimics.replay`). Together, the description of a completed instruction can be replayed
(`Thread.retires_or_fails_execute`).
-/

set_option autoImplicit false
set_option relaxedAutoImplicit false

namespace LongMode

/-! ### The two halves of a vector register -/

section Halves

variable (v : BitVec 128) (high low : BitVec 64)

theorem low_append : (high ++ low).setWidth 64 = low := by
  rw [BitVec.setWidth_append, dif_pos (Nat.le_refl 64), BitVec.setWidth_eq]

theorem high_append : ((high ++ low) >>> 64).setWidth 64 = high := by
  refine BitVec.eq_of_getLsbD_eq fun i hi ↦ ?_
  rw [BitVec.getLsbD_setWidth, BitVec.getLsbD_ushiftRight, BitVec.getLsbD_append,
    if_neg (by omega), Nat.add_sub_cancel_left]
  simp [hi]

theorem append_halves : (v >>> 64).setWidth 64 ++ v.setWidth 64 = v := by
  refine BitVec.eq_of_getLsbD_eq fun i hi ↦ ?_
  rw [BitVec.getLsbD_append]
  by_cases hlow : i < 64
  · rw [if_pos hlow, BitVec.getLsbD_setWidth]
    simp [hlow]
  · rw [if_neg hlow, BitVec.getLsbD_setWidth, BitVec.getLsbD_ushiftRight,
      Nat.add_sub_cancel' (Nat.le_of_not_lt hlow)]
    simp [show i - 64 < 64 by omega]

end Halves

/-! ### Parts of the registers -/

/-- Registers as a program sees them: with the flag word that it sees. -/
def RegisterFile.seen (r : RegisterFile) : RegisterFile :=
  { r with rflags := r.flags }

namespace RegisterFile

theorem flags_seen (r : RegisterFile) : r.seen.flags = r.flags := by
  rw [flags, seen, flags, BitVec.or_assoc, BitVec.or_self]

theorem seen_eq_self {r : RegisterFile} (h : r.rflags = r.flags) : r.seen = r := by
  rw [seen, ← h]

end RegisterFile

namespace RegisterSlot

variable (r r' : RegisterFile)

theorem mem_all (slot : RegisterSlot) : slot ∈ all := by
  cases slot <;> simp [all]

theorem nodup_all : all.Nodup := by
  decide

theorem read_seen (slot : RegisterSlot) : slot.read r.seen = slot.read r := by
  cases slot with
  | flags => exact r.flags_seen
  | _ => rfl

/-- A part that is given the value that it has elsewhere has that value. -/
theorem read_write (slot : RegisterSlot) :
    slot.read (slot.write r (slot.read r')) = slot.read r' := by
  cases slot with
  | general i => simp [read, write, RegisterFile.get_set]
  | instructionPointer => rfl
  | flags => exact r'.flags_seen
  | fsBase => rfl
  | gsBase => rfl
  | vectorLow i => simp only [read, write, RegisterFile.vector_setVector, if_true, low_append]
  | vectorHigh i => simp only [read, write, RegisterFile.vector_setVector, if_true, high_append]
  | vectorControl => simp [read, write]

/-- The parts are independent of each other. -/
theorem read_write_of_ne {slot other : RegisterSlot} (h : slot ≠ other) (value : BitVec 64) :
    other.read (slot.write r value) = other.read r := by
  cases slot with
  | general i =>
    cases other with
    | general j =>
      have hij : i ≠ j := fun hij ↦ h (congrArg general hij)
      simp only [read, write, RegisterFile.get_set, if_neg hij]
    | _ => rfl
  | vectorLow i =>
    cases other with
    | vectorLow j =>
      have hij : i ≠ j := fun hij ↦ h (congrArg vectorLow hij)
      simp only [read, write, RegisterFile.vector_setVector, if_neg hij]
    | vectorHigh j =>
      simp only [read, write, RegisterFile.vector_setVector]
      split
      · rename_i hij
        rw [high_append, hij]
      · rfl
    | _ => rfl
  | vectorHigh i =>
    cases other with
    | vectorHigh j =>
      have hij : i ≠ j := fun hij ↦ h (congrArg vectorHigh hij)
      simp only [read, write, RegisterFile.vector_setVector, if_neg hij]
    | vectorLow j =>
      simp only [read, write, RegisterFile.vector_setVector]
      split
      · rename_i hij
        rw [low_append, hij]
      · rfl
    | _ => rfl
  | instructionPointer => cases other <;> first | rfl | exact absurd rfl h
  | flags => cases other <;> first | rfl | exact absurd rfl h
  | fsBase => cases other <;> first | rfl | exact absurd rfl h
  | gsBase => cases other <;> first | rfl | exact absurd rfl h
  | vectorControl => cases other <;> first | rfl | exact absurd rfl h

theorem segments_write (slot : RegisterSlot) (value : BitVec 64) :
    (slot.write r value).segments = r.segments := by
  cases slot <;> rfl

theorem seen_write (slot : RegisterSlot) (h : r.seen = r) :
    (slot.write r (slot.read r')).seen = slot.write r (slot.read r') := by
  have hflags : r.rflags = r.flags := (congrArg RegisterFile.rflags h).symm
  cases slot with
  | flags => exact RegisterFile.seen_eq_self r'.flags_seen.symm
  | _ => exact RegisterFile.seen_eq_self hflags

end RegisterSlot

namespace RegisterFile

/-- Registers whose parts and segment selectors are the same are the same to a program. -/
theorem seen_eq_of_reads {r r' : RegisterFile} (h : ∀ slot : RegisterSlot, slot.read r = slot.read r')
    (hsegments : r.segments = r'.segments) : r.seen = r'.seen := by
  have hgeneral : r.general = r'.general :=
    Vector.ext fun i hi ↦ h (.general ⟨i, hi⟩)
  have hxmm : r.xmm = r'.xmm := by
    refine Vector.ext fun i hi ↦ ?_
    have hlow := h (.vectorLow ⟨i, hi⟩)
    have hhigh := h (.vectorHigh ⟨i, hi⟩)
    have hv : r.vector ⟨i, hi⟩ = r'.vector ⟨i, hi⟩ := by
      rw [← append_halves (r.vector ⟨i, hi⟩), ← append_halves (r'.vector ⟨i, hi⟩)]
      exact congrArg₂ _ hhigh hlow
    exact hv
  have hcontrol : r.mxcsr = r'.mxcsr := by
    have hwide := congrArg (BitVec.setWidth 32) (h .vectorControl)
    simpa [RegisterSlot.read] using hwide
  rw [seen, seen, mk.injEq]
  exact ⟨hgeneral, h .instructionPointer, h .flags, hsegments, h .fsBase, h .gsBase, hxmm, hcontrol⟩

/-! ### Changes -/

/-- Make a change in registers that have its old value. -/
def adjust? (r : RegisterFile) (change : RegisterChange) : Option RegisterFile :=
  if change.slot.read r = change.old then some (change.slot.write r change.new) else none

/-- Make changes one after the other. -/
def adjustAll? (r : RegisterFile) (changes : List RegisterChange) : Option RegisterFile :=
  changes.foldlM adjust? r

/-- The change of one part, if it has changed. -/
def change? (before after : RegisterFile) (slot : RegisterSlot) : Option RegisterChange :=
  if slot.read before = slot.read after then none
  else some ⟨slot, slot.read before, slot.read after⟩

theorem changes_eq (before after : RegisterFile) :
    before.changes after = RegisterSlot.all.filterMap (before.change? after) :=
  rfl

/-- Registers after the changes of some parts: those have their new values, and the others have
kept theirs. -/
structure Changed (r after : RegisterFile) (slots : List RegisterSlot) (r' : RegisterFile) :
    Prop where
  changed (slot : RegisterSlot) : slot ∈ slots → slot.read r' = slot.read after
  kept (slot : RegisterSlot) : slot ∉ slots → slot.read r' = slot.read r
  segments : r'.segments = r.segments
  seen : r.seen = r → r'.seen = r'

/-- The changes of some parts can be made wherever those parts have their old values. -/
theorem exists_changed {r before after : RegisterFile} {slots : List RegisterSlot}
    (hnodup : slots.Nodup) (hold : ∀ slot ∈ slots, slot.read r = slot.read before) :
    ∃ r', r.adjustAll? (slots.filterMap (before.change? after)) = some r' ∧
      r.Changed after slots r' := by
  induction slots generalizing r with
  | nil => exact ⟨r, rfl, nofun, fun _ _ ↦ rfl, rfl, id⟩
  | cons slot slots ih =>
    obtain ⟨hfresh, hnodup⟩ := List.nodup_cons.mp hnodup
    have hslot := hold slot List.mem_cons_self
    rw [List.filterMap_cons, change?]
    by_cases hsame : slot.read before = slot.read after
    · obtain ⟨r', hadjust, hr'⟩ := ih hnodup fun other hother ↦
        hold other (List.mem_cons_of_mem slot hother)
      rw [if_pos hsame]
      refine ⟨r', hadjust, fun other hother ↦ ?_, fun other hother ↦ ?_, hr'.segments, hr'.seen⟩
      · rcases List.mem_cons.mp hother with rfl | hother
        · rw [hr'.kept other hfresh, hslot, hsame]
        · exact hr'.changed other hother
      · exact hr'.kept other fun hmem ↦ hother (List.mem_cons_of_mem slot hmem)
    · obtain ⟨r', hadjust, hr'⟩ := ih (r := slot.write r (slot.read after)) hnodup
        fun other hother ↦ by
          have hne : slot ≠ other := fun heq ↦ hfresh (heq ▸ hother)
          rw [RegisterSlot.read_write_of_ne r hne]
          exact hold other (List.mem_cons_of_mem slot hother)
      rw [if_neg hsame]
      refine ⟨r', ?_, fun other hother ↦ ?_, fun other hother ↦ ?_, ?_, fun hseen ↦ ?_⟩
      · rw [adjustAll?, List.foldlM_cons, adjust?, if_pos hslot]
        exact hadjust
      · rcases List.mem_cons.mp hother with rfl | hother
        · rw [hr'.kept other hfresh, RegisterSlot.read_write]
        · exact hr'.changed other hother
      · obtain ⟨hne, hmem⟩ := not_or.mp (mt List.mem_cons.mpr hother)
        rw [hr'.kept other hmem, RegisterSlot.read_write_of_ne r (Ne.symm hne)]
      · rw [hr'.segments, RegisterSlot.segments_write]
      · exact hr'.seen (RegisterSlot.seen_write r after slot hseen)

/-- The changes from one register file to another lead from the one to the other. -/
theorem adjustAll?_changes {before after : RegisterFile} (h : after.segments = before.segments) :
    before.seen.adjustAll? (before.changes after) = some after.seen := by
  obtain ⟨r', hadjust, hr'⟩ :
      ∃ r', before.seen.adjustAll? (RegisterSlot.all.filterMap (before.change? after)) = some r' ∧
        before.seen.Changed after RegisterSlot.all r' :=
    exists_changed RegisterSlot.nodup_all fun slot _ ↦ slot.read_seen before
  have hseen : r'.seen = r' := hr'.seen (seen_eq_self before.flags_seen.symm)
  rw [changes_eq, hadjust, ← hseen]
  exact congrArg some <| seen_eq_of_reads (fun slot ↦ hr'.changed slot slot.mem_all)
    (hr'.segments.trans h.symm)

end RegisterFile

/-! ### Events -/

/-- Follow the description of an instruction, in registers that have the old values of its changes.
-/
def TraceEvent.replay? (e : TraceEvent) (s : RegisterFile × Memory) :
    Option (RegisterFile × Memory) := do
  let registers ← s.1.adjustAll? e.changes
  return (registers, s.2.replay e.writes)

/-- Follow descriptions one after the other. -/
def replayAll? (s : RegisterFile × Memory) (events : List TraceEvent) :
    Option (RegisterFile × Memory) :=
  events.foldlM (fun s e ↦ e.replay? s) s

theorem replayAll?_append (s : RegisterFile × Memory) (events later : List TraceEvent) :
    replayAll? s (events ++ later) = (replayAll? s events).bind (replayAll? · later) :=
  List.foldlM_append ..

/-! ### Attempts at an instruction -/

/-- An attempt that completes the instruction at the instruction pointer: it is described, and the
description leads from the registers, and from any snapshot of memory, to those after it. -/
structure Execution.Retires (e : Execution) (t : Thread) (m : Memory) (event : TraceEvent) : Prop where
  event_eq : e.event = some event
  thread_eq : e.thread = t.retire e.thread.registers
  tid_eq : event.tid = t.tid
  sequence_eq : event.sequence = t.retired
  address_eq : event.instruction.address = t.registers.rip
  replay (s : Memory) : s.Mimics m →
    event.replay? (t.registers.seen, s) = some (e.thread.registers.seen, s.replay event.writes) ∧
      (s.replay event.writes).Mimics e.memory

/-- Threads with the same number, registers and count of completed instructions. They may differ in
their queues of faults, and one of them may have ended. -/
structure Thread.Akin (t t' : Thread) : Prop where
  tid_eq : t'.tid = t.tid
  registers_eq : t'.registers = t.registers
  retired_eq : t'.retired = t.retired

/-- An attempt that does not complete: it is not described, and leaves memory and registers alone.
-/
structure Execution.Fails (e : Execution) (t : Thread) (m : Memory) : Prop where
  event_eq : e.event = none
  memory_eq : e.memory = m
  akin : t.Akin e.thread

namespace Thread

theorem Akin.refl (t : Thread) : t.Akin t :=
  ⟨rfl, rfl, rfl⟩

theorem Akin.symm {t t' : Thread} (h : t.Akin t') : t'.Akin t :=
  ⟨h.tid_eq.symm, h.registers_eq.symm, h.retired_eq.symm⟩

theorem Akin.trans {t t' t'' : Thread} (h : t.Akin t') (h' : t'.Akin t'') : t.Akin t'' :=
  ⟨h'.tid_eq.trans h.tid_eq, h'.registers_eq.trans h.registers_eq, h'.retired_eq.trans h.retired_eq⟩

variable {t t' : Thread} {m : Memory} {i : Instruction}

theorem fails_haltOnDecode (t : Thread) (m : Memory) (a : Address) (bytes : List UInt8)
    (error : DecodeError) : (t.haltOnDecode m a bytes error).Fails t m := by
  refine ⟨rfl, rfl, ?_⟩
  rw [haltOnDecode, halt]
  split
  · exact .refl t
  · exact ⟨rfl, rfl, rfl⟩

theorem fails_raise (t : Thread) (m : Memory) (fault : Fault) (a : Address) :
    (t.raise m fault a).Fails t m := by
  unfold raise
  split
  · exact fails_haltOnDecode _ _ _ _ _
  · refine ⟨rfl, rfl, ?_⟩
    dsimp only
    rw [deliver]
    split
    · exact .refl t
    · exact ⟨rfl, rfl, rfl⟩

theorem fails_panic (t : Thread) (m : Memory) (p : Panic) : (t.panic m p).Fails t m :=
  ⟨rfl, rfl, .refl t⟩

theorem fails_abandon (t : Thread) (m : Memory) (stop : Stop) (a : Address) :
    (t.abandon m stop a).Fails t m := by
  cases stop with
  | fault fault => exact fails_raise t m fault a
  | panic p => exact fails_panic t m p

/-- An instruction at the instruction pointer completes and is described, or it fails. -/
theorem retires_or_fails_execute (t : Thread) (m : Memory) (hi : i.TradesGeneral)
    (hrip : i.address = t.registers.rip) :
    (∃ event, (t.execute m i).Retires t m event) ∨ (t.execute m i).Fails t m := by
  rw [execute]
  split
  · rename_i stop after hexecute
    rw [Machine.memory_execute_of_error hi hexecute]
    exact .inr (fails_abandon t m stop i.address)
  · rename_i done after hexecute
    obtain ⟨hsegments, hflags⟩ := Machine.registers_execute hexecute
    have hstored := Machine.stored_execute
      { registers := t.registers, memory := m, retired := t.retired } i
    rw [hexecute] at hstored
    refine .inl ⟨_, rfl, rfl, rfl, rfl, hrip, fun s hs ↦ ⟨?_, ?_⟩⟩
    · rw [TraceEvent.replay?, RegisterFile.adjustAll?_changes hsegments]
      rfl
    · exact hs.replay hstored.space (Machine.contents_execute rfl hexecute)

/-- Akin threads do the same with an instruction. -/
theorem Akin.execute (h : t.Akin t') (m : Memory) (i : Instruction) :
    (t.execute m i).thread.Akin (t'.execute m i).thread ∧
      (t'.execute m i).memory = (t.execute m i).memory := by
  rw [Thread.execute, Thread.execute, h.registers_eq, h.retired_eq]
  split
  · rename_i stop after _
    have hfails := fails_abandon t after stop i.address
    have hfails' := fails_abandon t' after stop i.address
    exact ⟨hfails.akin.symm.trans (h.trans hfails'.akin),
      hfails'.memory_eq.trans hfails.memory_eq.symm⟩
  · exact ⟨⟨h.tid_eq, rfl, congrArg (· + 1) h.retired_eq⟩, rfl⟩

end Thread

end LongMode
