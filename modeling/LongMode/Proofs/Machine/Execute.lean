import LongMode.Machine.Execute
import LongMode.Proofs.Machine.Locked
import LongMode.Proofs.Machine.Strings
import LongMode.Proofs.Machine.Vector

/-!
Every instruction that the machine executes changes memory by recorded stores (`storing_of_effect`),
and commits if the operands that it trades for one another are general registers or memory
(`committing_of_effect`). Seen from outside: an instruction that stops at a fault leaves memory as
it was (`Machine.memory_execute_of_error`), and one that completes without a record of a store does
so too (`Machine.memory_execute_of_writes_eq`).
-/

set_option autoImplicit false
set_option relaxedAutoImplicit false

namespace LongMode

open Exec

/-! ### One instruction after the other -/

/-- What passes control on in order commits, the two exchanges apart. -/
theorem Mnemonic.committing_of_straight? (i : Instruction) :
    ∀ {mnemonic : Mnemonic} {c : Exec Unit}, mnemonic.straight? i = some c →
      mnemonic ≠ .xchg → mnemonic ≠ .xadd → Committing c
  | .xchg, _, _, h, _ => absurd rfl h
  | .xadd, _, _, _, h => absurd rfl h
  | .alu op, _, rfl, _, _ => committing_binary op true i
  | .cmp, _, rfl, _, _ => committing_binary .sub false i
  | .test, _, rfl, _, _ => committing_binary .and false i
  | .unary op, _, rfl, _, _ => committing_unary op i
  | .cmpxchg, _, rfl, _, _ => committing_compareExchange i
  | .cmpxchg8b, _, rfl, _, _ => committing_compareExchange8 i
  | .cmpxchg16b, _, rfl, _, _ => committing_compareExchange16 i
  | .bit op, _, rfl, _, _ => committing_bit op i
  | .bsf, _, rfl, _, _ => committing_scan true i
  | .bsr, _, rfl, _, _ => committing_scan false i
  | .tzcnt, _, rfl, _, _ => committing_count i _ _
  | .lzcnt, _, rfl, _, _ => committing_count i _ _
  | .popcnt, _, rfl, _, _ => committing_count i _ _
  | .bswap, _, rfl, _, _ => committing_byteSwap i
  | .int3, _, rfl, _, _ => (reading_fault _).committing
  | .undefined _, _, rfl, _, _ => (reading_fault _).committing
  | .privileged _, _, rfl, _, _ => (reading_fault _).committing
  | .mov, _, rfl, _, _ => committing_move i
  | .movzx, _, rfl, _, _ => committing_moveExtended false i
  | .movsx, _, rfl, _, _ => committing_moveExtended true i
  | .movsxd, _, rfl, _, _ => committing_moveExtended true i
  | .lea, _, rfl, _, _ => committing_loadAddress i
  | .push, _, rfl, _, _ => committing_pushOperand i
  | .pop, _, rfl, _, _ => committing_popOperand i
  | .leave, _, rfl, _, _ => reading_leave.committing
  | .cmov c, _, rfl, _, _ => committing_moveOn c i
  | .setcc c, _, rfl, _, _ => committing_setOn c i
  | .widenAccumulator w, _, rfl, _, _ => (quiet_widenAccumulator w).committing
  | .widenPair w, _, rfl, _, _ => (quiet_widenPair w).committing
  | .lahf, _, rfl, _, _ => quiet_loadFlagByte.committing
  | .sahf, _, rfl, _, _ => quiet_storeFlagByte.committing
  | .pushf _, _, rfl, _, _ => committing_pushFlags i
  | .popf _, _, rfl, _, _ => (reading_popFlags i).committing
  | .flag _, _, rfl, _, _ => (quiet_modifyFlags _).committing
  | .nop _, _, rfl, _, _ => (Quiet.pure ()).committing
  | .cpuid, _, rfl, _, _ => quiet_identify.committing
  | .rdtsc, _, rfl, _, _ => quiet_readTimeStamp.committing
  | .mul, _, rfl, _, _ => (reading_mul i).committing
  | .imul, _, rfl, _, _ => committing_imul i
  | .div, _, rfl, _, _ => (reading_div i).committing
  | .idiv, _, rfl, _, _ => (reading_idiv i).committing
  | .shift op, _, rfl, _, _ => committing_shift op i
  | .doubleShift left, _, rfl, _, _ => committing_doubleShift left i
  | .string op w, _, rfl, _, _ => committing_string op w i
  | .vectorMove op, _, rfl, _, _ => committing_moveVector op.aligned i
  | .movd, _, rfl, _, _ => committing_moveWord .dword i
  | .movq, _, rfl, _, _ => committing_moveWord .qword i
  | .scalarMove p, _, rfl, _, _ => committing_moveScalar p.width i
  | .halfMove op, _, rfl, _, _ => committing_moveHalf op.high i
  | .movhlps, _, rfl, _, _ => (reading_moveAcross true i).committing
  | .movlhps, _, rfl, _, _ => (reading_moveAcross false i).committing
  | .movnti, _, rfl, _, _ => committing_move i
  | .packed op, _, rfl, _, _ => (reading_packed op i).committing
  | .packedShift op w, _, rfl, _, _ => (reading_packedShift op w i).committing
  | .byteShift left, _, rfl, _, _ => (reading_byteShift left i).committing
  | .shuffle op, _, rfl, _, _ => (reading_shuffle op i).committing
  | .signMask op, _, rfl, _, _ => committing_signMask op i
  | .pextrw, _, rfl, _, _ => committing_extractWord i
  | .pinsrw, _, rfl, _, _ => (reading_insertWord i).committing
  | .floatArithmetic op vectors p, _, rfl, _, _ =>
    (reading_floatArithmetic op vectors p i).committing
  | .floatFlags ordered p, _, rfl, _, _ => (reading_floatFlags ordered p i).committing
  | .floatMask vectors p, _, rfl, _, _ => (reading_floatMask vectors p i).committing
  | .intToFloat p, _, rfl, _, _ => (reading_intToFloat p i).committing
  | .floatToInt truncate p, _, rfl, _, _ => committing_floatToInt truncate p i
  | .changePrecision p, _, rfl, _, _ => (reading_changePrecision p i).committing
  | .ldmxcsr, _, rfl, _, _ => (reading_loadControl i).committing
  | .stmxcsr, _, rfl, _, _ => committing_storeControl i

/-- What passes control on otherwise commits without a condition. -/
theorem Mnemonic.committing_of_effect? {i : Instruction} {mnemonic : Mnemonic}
    {c : Exec Transfer} (h : mnemonic.effect? i = some c) (hxchg : mnemonic ≠ .xchg)
    (hxadd : mnemonic ≠ .xadd) : Committing c := by
  unfold effect? at h
  split at h
  · rw [← Option.some.inj h, jump]
    exact (reading_branchIf true i).committing
  · rw [← Option.some.inj h]
    exact (reading_jumpOn _ i).committing
  · rw [← Option.some.inj h]
    exact committing_call i
  · rw [← Option.some.inj h]
    exact (reading_ret i).committing
  · rw [← Option.some.inj h]
    exact (reading_loop _ i).committing
  · rw [← Option.some.inj h]
    exact (reading_jumpIfCounterZero _ i).committing
  · rw [← Option.some.inj h]
    exact (quiet_syscall i).committing
  · obtain ⟨effect, hstraight, rfl⟩ := Option.map_eq_some_iff.mp h
    exact .quietly (committing_of_straight? i hstraight hxchg hxadd) fun _ ↦ .pure _

/-- The two exchanges, of which the effect is known by their mnemonics. -/
theorem Mnemonic.eq_of_effect?_of_trades {i : Instruction} {c : Exec Transfer} :
    (xchg.effect? i = some c → c = (do exchange i; return .next)) ∧
      (xadd.effect? i = some c → c = (do exchangeAdd i; return .next)) :=
  ⟨fun h ↦ (Option.some.inj h).symm, fun h ↦ (Option.some.inj h).symm⟩

namespace Instruction

/-- An instruction that trades only general registers commits. -/
theorem committing_of_effect {i : Instruction} {c : Exec Transfer} (hi : i.TradesGeneral)
    (h : i.effect = .ok c) : Committing c := by
  rw [effect] at h
  by_cases hlock : i.prefixes.lock
  · simp only [hlock, if_true] at h
    split at h
    · rw [← Except.ok.inj h]
      exact .quietly (committing_locked hi) fun _ ↦ .pure _
    · exact nomatch h
  · simp only [hlock, Bool.false_eq_true, if_false] at h
    split at h
    · rename_i effect heffect
      rw [← Except.ok.inj h]
      by_cases hxchg : i.mnemonic = .xchg
      · rw [hxchg] at heffect
        rw [Mnemonic.eq_of_effect?_of_trades.1 heffect]
        exact .quietly (committing_exchange (hi (.inl hxchg))) fun _ ↦ .pure _
      · by_cases hxadd : i.mnemonic = .xadd
        · rw [hxadd] at heffect
          rw [Mnemonic.eq_of_effect?_of_trades.2 heffect]
          exact .quietly (committing_exchangeAdd (hi (.inr hxadd))) fun _ ↦ .pure _
        · exact Mnemonic.committing_of_effect? heffect hxchg hxadd
    · exact nomatch h

/-- Every instruction changes memory by stores that it records. -/
theorem storing_of_effect {i : Instruction} {c : Exec Transfer} (h : i.effect = .ok c) :
    Storing c := by
  rw [effect] at h
  by_cases hlock : i.prefixes.lock
  · simp only [hlock, if_true] at h
    split at h
    · rw [← Except.ok.inj h]
      exact .bind (storing_locked i) fun _ ↦ (Quiet.pure _).storing
    · exact nomatch h
  · simp only [hlock, Bool.false_eq_true, if_false] at h
    split at h
    · rename_i effect heffect
      rw [← Except.ok.inj h]
      by_cases hxchg : i.mnemonic = .xchg
      · rw [hxchg] at heffect
        rw [Mnemonic.eq_of_effect?_of_trades.1 heffect]
        exact .bind (storing_exchange i) fun _ ↦ (Quiet.pure _).storing
      · by_cases hxadd : i.mnemonic = .xadd
        · rw [hxadd] at heffect
          rw [Mnemonic.eq_of_effect?_of_trades.2 heffect]
          exact .bind (storing_exchangeAdd i) fun _ ↦ (Quiet.pure _).storing
        · exact (Mnemonic.committing_of_effect? heffect hxchg hxadd).storing
    · exact nomatch h

end Instruction

/-! ### Running an instruction -/

namespace Machine

/-- What is left of an instruction that has an effect. -/
def outcome (m : Machine) (i : Instruction) (effect : Exec Transfer) :
    Except Stop Completion × Memory :=
  ((effect.exec m).1.map fun transfer ↦ (effect.exec m).2.complete i transfer,
    (effect.exec m).2.memory)

theorem execute_eq_outcome {i : Instruction} {effect : Exec Transfer} (h : i.effect = .ok effect)
    (m : Machine) : m.execute i = m.outcome i effect := by
  rw [execute, h, outcome]
  simp only [exec]
  cases effect.run.run m with
  | mk outcome after =>
    cases outcome with
    | error stop => rfl
    | ok transfer => rfl

variable {m : Machine} {i : Instruction} {after : Memory} {done : Completion}

/-- An instruction that completes has an effect, and the effect ends. -/
theorem exists_ends_of_execute (h : m.execute i = (.ok done, after)) :
    ∃ effect transfer m', i.effect = .ok effect ∧ effect.exec m = (.ok transfer, m') ∧
      done = m'.complete i transfer ∧ after = m'.memory := by
  cases heffect : i.effect with
  | error e =>
    rw [execute, heffect] at h
    cases h
  | ok effect =>
    rw [execute_eq_outcome heffect, outcome] at h
    cases hexec : effect.exec m with
    | mk outcome m' =>
      rw [hexec] at h
      cases outcome with
      | error stop => cases h
      | ok transfer =>
        rw [Prod.mk.injEq] at h
        exact ⟨effect, transfer, m', rfl, hexec, (Except.ok.inj h.1).symm, h.2.symm⟩

/-- An instruction changes memory by stores, whether it completes or not. -/
theorem stored_execute (m : Machine) (i : Instruction) : m.memory.Stored (m.execute i).2 := by
  cases heffect : i.effect with
  | error e =>
    rw [execute, heffect]
    exact .refl _
  | ok effect =>
    rw [execute_eq_outcome heffect]
    exact (Instruction.storing_of_effect heffect m).stored

/-- An instruction that stops leaves memory as it was. -/
theorem memory_execute_of_error (hi : i.TradesGeneral) {stop : Stop}
    (h : m.execute i = (.error stop, after)) : after = m.memory := by
  cases heffect : i.effect with
  | error e =>
    rw [execute, heffect] at h
    exact (Prod.mk.inj h).2.symm
  | ok effect =>
    rw [execute_eq_outcome heffect, outcome, Prod.mk.injEq] at h
    have hstop := (Instruction.committing_of_effect hi heffect m).stop
    cases hend : (effect.exec m).1 with
    | error e => exact h.2.symm.trans (hstop e hend)
    | ok transfer =>
      rw [hend] at h
      cases h.1

/-- An instruction that completes and records no store leaves memory as it was. -/
theorem memory_execute_of_writes_eq (hwrites : m.writes = #[])
    (h : m.execute i = (.ok done, after)) (hnone : done.writes = #[]) : after = m.memory := by
  obtain ⟨effect, transfer, m', heffect, hexec, rfl, rfl⟩ := exists_ends_of_execute h
  have hfollows := Instruction.storing_of_effect heffect m
  rw [hexec] at hfollows
  change m'.writes = #[] at hnone
  refine hfollows.unchanged ?_
  rw [hnone, hwrites]

/-- The stores that a completed instruction reports are those that it made. -/
theorem contents_execute (hwrites : m.writes = #[]) (h : m.execute i = (.ok done, after)) :
    after.frames.contents =
      FrameStore.assign m.memory.frames.contents (m.memory.space.cellsOf done.writes.toList) := by
  obtain ⟨effect, transfer, m', heffect, hexec, rfl, rfl⟩ := exists_ends_of_execute h
  obtain ⟨log, hlog, hcontents⟩ := (Instruction.storing_of_effect heffect m).recorded
  rw [hexec] at hlog hcontents
  rw [hwrites] at hlog
  change m'.writes.toList = log at hlog
  subst hlog
  exact hcontents

/-- A completed instruction leaves the segment selectors alone, and the flag word as a program sees
it. -/
theorem registers_execute (h : m.execute i = (.ok done, after)) :
    done.registers.segments = m.registers.segments ∧
      done.registers.rflags = done.registers.flags := by
  obtain ⟨effect, transfer, m', heffect, hexec, rfl, rfl⟩ := exists_ends_of_execute h
  have hsegments := (Instruction.storing_of_effect heffect m).segments
  rw [hexec] at hsegments
  refine ⟨hsegments, ?_⟩
  simp only [complete, RegisterFile.flags, BitVec.or_assoc, BitVec.or_self]

end Machine

end LongMode
