import LongMode.Machine.Locked
import LongMode.Proofs.Decode.Decoder
import LongMode.Proofs.Machine.Integer

/-!
Indivisible instructions. Most of them store as the last thing that can fault. The exchange and the
exchange that adds write a register after the store, so they commit only where that register can be
written: where the operands that are registers are general registers (`Operand.IsGeneral`). What
they do to memory they do by recorded stores in any case.
-/

set_option autoImplicit false
set_option relaxedAutoImplicit false

namespace LongMode

namespace Exec

variable {α : Type}

/-- An operand that is found is one of the instruction's. -/
theorem mem_of_exec_operand {i : Instruction} {index : Nat} {o : Operand} {m m' : Machine}
    (h : (i.operand index).exec m = (.ok o, m')) : o ∈ i.operands := by
  rw [Instruction.operand] at h
  cases hoperand : i.operands[index]? with
  | none =>
    rw [hoperand] at h
    exact nomatch h
  | some o' =>
    rw [hoperand, orUnsupported, exec_pure, Prod.mk.injEq, Except.ok.injEq] at h
    rw [← h.1]
    exact List.mem_of_getElem? hoperand

/-! ### Exchanges -/

theorem committing_exchangeMemory {r : Register} (hr : r.generalPart?.isSome) (m : MemoryOperand)
    (w : Width) : Committing (do
      let value := (← readRegister r).setWidth w.bits
      let old ← atomically (← linear m) w fun old => (value, old)
      writeRegister r (old.setWidth 64)) :=
  .read (reading_readRegister r) fun _ ↦ .read (reading_linear m) fun a ↦
    .quietly (committing_atomically a w _) fun _ ↦ quiet_writeRegister hr _

theorem storing_exchangeMemory (r : Register) (m : MemoryOperand) (w : Width) : Storing (do
    let value := (← readRegister r).setWidth w.bits
    let old ← atomically (← linear m) w fun old => (value, old)
    writeRegister r (old.setWidth 64)) :=
  .bind (reading_readRegister r).storing fun _ ↦ .bind (reading_linear m).storing fun a ↦
    .bind (committing_atomically a w _).storing fun _ ↦ (reading_writeRegister r _).storing

theorem reading_exchangeRegisters (a b : Register) : Reading (do
    let x ← readRegister a
    let y ← readRegister b
    writeRegister a y
    writeRegister b x) :=
  .bind (reading_readRegister a) fun _ ↦ .bind (reading_readRegister b) fun _ ↦
    .bind (reading_writeRegister a _) fun _ ↦ reading_writeRegister b _

theorem committing_exchange {i : Instruction} (h : ∀ o ∈ i.operands, o.IsGeneral) :
    Committing (exchange i) := by
  intro m
  refine .read (i.reading_operand 0) fun first m₁ hfirst ↦ ?_
  refine .read (i.reading_operand 1) fun second m₂ hsecond ↦ ?_
  have hgeneral := h first (mem_of_exec_operand hfirst)
  have hgeneral' := h second (mem_of_exec_operand hsecond)
  refine .read first.reading_width fun w m₃ _ ↦ ?_
  dsimp only
  split
  · exact (reading_exchangeRegisters _ _).committing m₃
  · exact committing_exchangeMemory (hgeneral' _ rfl) _ w m₃
  · exact committing_exchangeMemory (hgeneral _ rfl) _ w m₃
  · exact reading_invalid.committing m₃

theorem storing_exchange (i : Instruction) : Storing (exchange i) := by
  refine .bind (i.reading_operand 0).storing fun first ↦ .bind (i.reading_operand 1).storing
    fun second ↦ .bind first.reading_width.storing fun w ↦ ?_
  dsimp only
  split
  · exact (reading_exchangeRegisters _ _).storing
  · exact storing_exchangeMemory _ _ w
  · exact storing_exchangeMemory _ _ w
  · exact reading_invalid.storing

/-! ### Operands of locked instructions -/

theorem reading_memoryDestination (i : Instruction) : Reading (memoryDestination i) := by
  refine .bind (i.reading_operand 0) fun o ↦ ?_
  cases o with
  | memory m => exact .pure m
  | register r => exact reading_invalid
  | immediate value size => exact reading_invalid
  | branch target => exact reading_invalid
  | implicit => exact reading_invalid

theorem reading_sourceRegister (i : Instruction) : Reading (sourceRegister i) := by
  refine .bind (i.reading_operand 1) fun o ↦ ?_
  cases o with
  | register r => exact .pure r
  | memory m => exact reading_invalid
  | immediate value size => exact reading_invalid
  | branch target => exact reading_invalid
  | implicit => exact reading_invalid

theorem mem_of_exec_sourceRegister {i : Instruction} {r : Register} {m m' : Machine}
    (h : (sourceRegister i).exec m = (.ok r, m')) : .register r ∈ i.operands := by
  rw [sourceRegister] at h
  cases hexec : (i.operand 1).exec m with
  | mk outcome m₁ =>
    cases outcome with
    | error e =>
      rw [exec_bind_of_error hexec] at h
      exact nomatch h
    | ok o =>
      rw [exec_bind_of_ok hexec] at h
      cases o with
      | register r' =>
        rw [exec_pure, Prod.mk.injEq, Except.ok.injEq] at h
        rw [← h.1]
        exact mem_of_exec_operand hexec
      | memory m => exact nomatch h
      | immediate value size => exact nomatch h
      | branch target => exact nomatch h
      | implicit => exact nomatch h

theorem committing_updateLocked (a : Address) (w : Width)
    (f : Flags → BitVec w.bits → BitVec w.bits × Flags) : Committing (updateLocked a w f) :=
  .read quiet_flags.reading fun _ ↦ .quietly (committing_atomically a w _) fun _ ↦
    quiet_setFlags _

/-! ### Operations on a locked cell -/

theorem committing_binaryLocked (op : AluOp) (i : Instruction) : Committing (binaryLocked op i) :=
  .read (reading_memoryDestination i) fun m ↦ .read (Operand.reading_width _) fun w ↦
    .read (i.reading_operand 1) fun src ↦ .read (reading_readOperand src w) fun _ ↦
      .read (reading_linear m) fun a ↦ committing_updateLocked a w _

theorem committing_unaryLocked (op : UnaryOp) (i : Instruction) :
    Committing (unaryLocked op i) :=
  .read (reading_memoryDestination i) fun m ↦ .read (Operand.reading_width _) fun w ↦
    .read (reading_linear m) fun a ↦ committing_updateLocked a w _

theorem committing_bitLocked (op : BitOp) (i : Instruction) : Committing (bitLocked op i) := by
  refine .read (i.reading_operand 0) fun dst ↦ .read dst.reading_width fun w ↦
    .read (i.reading_operand 1) fun src ↦ .read (reading_locateBit dst src w) fun located ↦ ?_
  obtain ⟨place, index⟩ := located
  cases place with
  | some a => exact committing_updateLocked a w _
  | none => exact reading_invalid.committing

/-! ### The exchange that adds -/

theorem reading_exchangeAddRegisters (r src : Register) (old sum : BitVec 64) (after : Flags) :
    Reading (do
      writeRegister src old
      writeRegister r sum
      setFlags after) :=
  .bind (reading_writeRegister src _) fun _ ↦ .bind (reading_writeRegister r _) fun _ ↦
    (quiet_setFlags after).reading

theorem committing_exchangeAdd {i : Instruction} (h : ∀ o ∈ i.operands, o.IsGeneral) :
    Committing (exchangeAdd i) := by
  intro m
  refine .read (i.reading_operand 0) fun dst m₁ _ ↦ ?_
  refine .read (reading_sourceRegister i) fun src m₂ hsrc ↦ ?_
  have hgeneral := h _ (mem_of_exec_sourceRegister hsrc) src rfl
  refine .read dst.reading_width fun w m₃ _ ↦ ?_
  refine .read (reading_readRegister src) fun b m₄ _ ↦ .read quiet_flags.reading fun _ m₅ _ ↦ ?_
  cases dst with
  | register r =>
    refine .read (reading_readRegister r) fun _ m₆ _ ↦ ?_
    exact (reading_exchangeAddRegisters r src _ _ _).committing m₆
  | memory place =>
    refine .read (reading_linear place) fun a m₆ _ ↦ ?_
    exact (committing_atomically a w _ m₆).quietly fun _ ↦
      .bind (quiet_writeRegister hgeneral _) fun _ ↦ quiet_setFlags _
  | immediate value size => exact reading_invalid.committing m₅
  | branch target => exact reading_invalid.committing m₅
  | implicit => exact reading_invalid.committing m₅

theorem storing_exchangeAdd (i : Instruction) : Storing (exchangeAdd i) := by
  refine .bind (i.reading_operand 0).storing fun dst ↦ .bind (reading_sourceRegister i).storing
    fun src ↦ .bind dst.reading_width.storing fun w ↦ .bind (reading_readRegister src).storing
      fun b ↦ .bind quiet_flags.storing fun _ ↦ ?_
  cases dst with
  | register r =>
    exact .bind (reading_readRegister r).storing fun _ ↦
      (reading_exchangeAddRegisters r src _ _ _).storing
  | memory place =>
    exact .bind (reading_linear place).storing fun a ↦
      .bind (committing_atomically a w _).storing fun _ ↦
        .bind (reading_writeRegister src _).storing fun _ ↦ (quiet_setFlags _).storing
  | immediate value size => exact reading_invalid.storing
  | branch target => exact reading_invalid.storing
  | implicit => exact reading_invalid.storing

/-! ### Exchanges under a comparison -/

theorem quiet_finishExchange (w : Width) (expected old : BitVec w.bits) : Quiet (do
    modifyFlags fun f => (Alu.sub f expected old false).2
    if old ≠ expected then setGeneralLow Register.rax w old) :=
  .bind (quiet_modifyFlags _) fun _ ↦ .ite (quiet_setGeneralLow _ w old) (.pure ())

theorem committing_compareExchange (i : Instruction) : Committing (compareExchange i) := by
  refine .read (i.reading_operand 0) fun dst ↦ .read (reading_sourceRegister i) fun src ↦
    .read dst.reading_width fun w ↦ .read (quiet_generalLow _ w).reading fun expected ↦
      .read (reading_readRegister src) fun _ ↦ ?_
  cases dst with
  | register r =>
    refine .read (reading_readRegister r) fun _ ↦ ?_
    exact .ite (.read (reading_writeRegister r _) fun _ ↦
      (quiet_finishExchange w expected _).committing) (quiet_finishExchange w expected _).committing
  | memory m =>
    exact .read (reading_linear m) fun a ↦ .quietly (committing_atomically a w _) fun old ↦
      quiet_finishExchange w expected old
  | immediate value size => exact .read reading_invalid fun old ↦
      (quiet_finishExchange w expected old).committing
  | branch target => exact .read reading_invalid fun old ↦
      (quiet_finishExchange w expected old).committing
  | implicit => exact .read reading_invalid fun old ↦
      (quiet_finishExchange w expected old).committing

theorem quiet_registerPair (w : Width) (high low : Fin 16) : Quiet (registerPair w high low) :=
  .bind (quiet_generalLow high w) fun _ ↦ .bind (quiet_generalLow low w) fun _ ↦ .pure _

theorem quiet_finishWideExchange (w : Width) (expected old : BitVec (w.bits + w.bits)) :
    Quiet (finishWideExchange w expected old) :=
  .bind (quiet_modifyFlags _) fun _ ↦ .ite
    (.bind (quiet_setGeneral _ _) fun _ ↦ quiet_setGeneral _ _) (.pure ())

theorem committing_compareExchange8 (i : Instruction) : Committing (compareExchange8 i) :=
  .read (reading_memoryDestination i) fun m ↦ .read (quiet_registerPair _ _ _).reading fun _ ↦
    .read (quiet_registerPair _ _ _).reading fun _ ↦ .read (reading_linear m) fun a ↦
      .quietly (committing_atomically a .qword _) fun _ ↦ quiet_finishWideExchange .dword _ _

/-- The exchange of sixteen bytes keeps its own record of the store. -/
theorem committing_compareExchange16 (i : Instruction) : Committing (compareExchange16 i) := by
  refine .read (reading_memoryDestination i) fun place ↦
    .read (quiet_registerPair _ _ _).reading fun expected ↦
      .read (quiet_registerPair _ _ _).reading fun replacement ↦
        .read (reading_linear place) fun a ↦ ?_
  intro m
  refine .memory <| .ofMemory fun outcome hupdate ↦ ?_
  obtain ⟨old, after⟩ := outcome
  have hatomic := Memory.atomicUpdate_of_aligned hupdate
  have hcontents := Memory.contents_atomicUpdate hatomic
  obtain ⟨_, _, hold, _⟩ := Memory.atomicUpdate_eq_ok.mp hatomic
  dsimp only at hold ⊢
  subst hold
  split
  · rename_i hequal
    simp only [hequal, if_true] at hcontents
    exact (commitsAt_record (Memory.stored_atomicUpdate hatomic) hcontents).quietly fun _ ↦
      quiet_finishWideExchange .qword _ _
  · exact (quiet_finishWideExchange .qword _ _).committing m

/-! ### Instructions under a lock prefix -/

theorem committing_locked {i : Instruction} (h : i.TradesGeneral) : Committing (locked i) := by
  rw [locked]
  split
  · exact committing_binaryLocked _ i
  · exact committing_unaryLocked _ i
  · exact committing_bitLocked _ i
  · rename_i hmnemonic
    exact committing_exchange (h (.inl hmnemonic))
  · rename_i hmnemonic
    exact committing_exchangeAdd (h (.inr hmnemonic))
  · exact committing_compareExchange i
  · exact committing_compareExchange8 i
  · exact committing_compareExchange16 i
  · exact reading_invalid.committing

theorem storing_locked (i : Instruction) : Storing (locked i) := by
  rw [locked]
  split
  · exact (committing_binaryLocked _ i).storing
  · exact (committing_unaryLocked _ i).storing
  · exact (committing_bitLocked _ i).storing
  · exact storing_exchange i
  · exact storing_exchangeAdd i
  · exact (committing_compareExchange i).storing
  · exact (committing_compareExchange8 i).storing
  · exact (committing_compareExchange16 i).storing
  · exact reading_invalid.storing

end Exec

end LongMode
