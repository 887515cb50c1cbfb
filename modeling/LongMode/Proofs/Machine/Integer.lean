import LongMode.Machine.Arithmetic
import LongMode.Machine.Bits
import LongMode.Machine.Control
import LongMode.Machine.Transfer
import LongMode.Proofs.Machine.Discipline

/-!
Instructions on integers and addresses commit: each of them reads what it needs, stores at most once
and changes registers only from there on. Those that trap, such as divisions, trap before the first
change. The two exchanges that store before they write a register are in
`LongMode.Proofs.Machine.Locked`.
-/

set_option autoImplicit false
set_option relaxedAutoImplicit false

namespace LongMode.Exec

/-! ### Arithmetic -/

theorem committing_binary (op : AluOp) (store : Bool) (i : Instruction) :
    Committing (binary op store i) :=
  .read (i.reading_operand 0) fun dst ↦ .read (i.reading_operand 1) fun src ↦
    .read dst.reading_width fun w ↦ .read (reading_readOperand src w) fun _ ↦
      committing_update dst w store _

theorem committing_unary (op : UnaryOp) (i : Instruction) : Committing (unary op i) :=
  .read (i.reading_operand 0) fun dst ↦ .read dst.reading_width fun w ↦
    committing_update dst w true _

theorem committing_shift (op : ShiftOp) (i : Instruction) : Committing (shift op i) :=
  .read (i.reading_operand 0) fun dst ↦ .read dst.reading_width fun w ↦
    .read (i.reading_operand 1) fun src ↦ .read (reading_readOperand src .byte) fun _ ↦
      .ite (committing_update dst w true _) (Quiet.pure ()).committing

theorem committing_doubleShift (left : Bool) (i : Instruction) :
    Committing (doubleShift left i) :=
  .read (i.reading_operand 0) fun dst ↦ .read dst.reading_width fun w ↦
    .read (i.reading_operand 1) fun src ↦ .read (reading_readOperand src w) fun _ ↦
      .read (i.reading_operand 2) fun count ↦ .read (reading_readOperand count .byte) fun _ ↦
        .ite (committing_tryUpdate dst w true _) (Quiet.pure ()).committing

theorem quiet_setPair (w : Width) (low high : BitVec w.bits) : Quiet (setPair w low high) :=
  .ite (quiet_setGeneralLow _ _ _) (.bind (quiet_setGeneralLow _ _ _) fun _ ↦
    quiet_setGeneralLow _ _ _)

theorem reading_mul (i : Instruction) : Reading (mul i) :=
  .bind (i.reading_operand 0) fun src ↦ .bind src.reading_width fun w ↦
    .bind (reading_readOperand src w) fun _ ↦ .bind (quiet_generalLow _ w).reading fun _ ↦
      .bind (quiet_setPair w _ _).reading fun _ ↦ (quiet_modifyFlags _).reading

theorem reading_imulPair (i : Instruction) : Reading (imulPair i) :=
  .bind (i.reading_operand 0) fun src ↦ .bind src.reading_width fun w ↦
    .bind (reading_readOperand src w) fun _ ↦ .bind (quiet_generalLow _ w).reading fun _ ↦
      .bind (quiet_setPair w _ _).reading fun _ ↦ (quiet_modifyFlags _).reading

theorem committing_imulLow (i : Instruction) (first second : Nat) :
    Committing (imulLow i first second) :=
  .read (i.reading_operand 0) fun dst ↦ .read dst.reading_width fun w ↦
    .read (i.reading_operand first) fun src ↦ .read (reading_readOperand src w) fun _ ↦
      .read (i.reading_operand second) fun src' ↦ .read (reading_readOperand src' w) fun _ ↦
        .quietly (committing_writeOperand dst w _) fun _ ↦ quiet_modifyFlags _

theorem committing_imul (i : Instruction) : Committing (imul i) := by
  rw [imul]
  split
  · exact (reading_imulPair i).committing
  · exact committing_imulLow i 0 1
  · exact committing_imulLow i 1 2
  · exact reading_unsupported.committing

theorem quiet_dividend (w : Width) : Quiet (dividend w) :=
  .bind (quiet_general _) fun _ ↦ .bind (quiet_general _) fun _ ↦ .pure _

theorem quiet_setQuotient (w : Width) (quotient remainder : BitVec w.bits) :
    Quiet (setQuotient w quotient remainder) :=
  .bind (quiet_setPair w _ _) fun _ ↦ quiet_modifyFlags _

/-- Both traps of a division come before its first change. -/
theorem reading_div (i : Instruction) : Reading (div i) :=
  .bind (i.reading_operand 0) fun src ↦ .bind src.reading_width fun w ↦
    .bind (reading_readOperand src w) fun _ ↦
      .unless <| .bind (quiet_dividend w).reading fun _ ↦
        .unless (quiet_setQuotient w _ _).reading

theorem reading_idiv (i : Instruction) : Reading (idiv i) :=
  .bind (i.reading_operand 0) fun src ↦ .bind src.reading_width fun w ↦
    .bind (reading_readOperand src w) fun _ ↦
      .unless <| .bind (quiet_dividend w).reading fun _ ↦
        .unless (quiet_setQuotient w _ _).reading

/-! ### Bits -/

theorem reading_locateBit (dst src : Operand) (w : Width) : Reading (locateBit dst src w) := by
  refine .bind (reading_readOperand src w) fun raw ↦ ?_
  cases dst with
  | memory m =>
    cases src with
    | register r => exact .bind (reading_linear m) fun _ ↦ .pure _
    | immediate value size => exact .bind (reading_linear m) fun _ ↦ .pure _
    | memory m' => exact .bind (reading_linear m) fun _ ↦ .pure _
    | branch target => exact .bind (reading_linear m) fun _ ↦ .pure _
    | implicit => exact .bind (reading_linear m) fun _ ↦ .pure _
  | register r => exact .pure _
  | immediate value size => exact .pure _
  | branch target => exact .pure _
  | implicit => exact .pure _

theorem committing_bit (op : BitOp) (i : Instruction) : Committing (bit op i) := by
  refine .read (i.reading_operand 0) fun dst ↦ .read (i.reading_operand 1) fun src ↦
    .read dst.reading_width fun w ↦ .read (reading_locateBit dst src w) fun located ↦ ?_
  obtain ⟨place, index⟩ := located
  cases place with
  | some a =>
    refine .read quiet_flags.reading fun before ↦ .read (reading_load a w) fun old ↦ ?_
    cases op.apply before old index with
    | mk new after =>
      exact .ite (.quietly (committing_store a w new) fun _ ↦ quiet_setFlags after)
        (quiet_setFlags after).committing
  | none =>
    cases dst with
    | register r =>
      refine .read (reading_readRegister r) fun old ↦ .read quiet_flags.reading fun before ↦ ?_
      cases op.apply before (old.setWidth w.bits) index with
      | mk new after =>
        refine .ite (Reading.committing ?_) (quiet_setFlags after).committing
        exact .bind (reading_writeRegister r _) fun _ ↦ (quiet_setFlags after).reading
    | memory m => exact reading_invalid.committing
    | immediate value size => exact reading_invalid.committing
    | branch target => exact reading_invalid.committing
    | implicit => exact reading_invalid.committing

theorem committing_scan (forward : Bool) (i : Instruction) : Committing (scan forward i) :=
  .read (i.reading_operand 0) fun dst ↦ .read dst.reading_width fun w ↦
    .read (i.reading_operand 1) fun src ↦ .read (reading_readOperand src w) fun _ ↦
      .read (quiet_modifyFlags _).reading fun _ ↦
        .ite (committing_writeOperand dst w _) (Quiet.pure ()).committing

theorem committing_count (i : Instruction) (result : {n : Nat} → BitVec n → BitVec n)
    (flags : {n : Nat} → Flags → BitVec n → BitVec n → Flags) :
    Committing (count i result flags) :=
  .read (i.reading_operand 0) fun dst ↦ .read dst.reading_width fun w ↦
    .read (i.reading_operand 1) fun src ↦ .read (reading_readOperand src w) fun _ ↦
      .quietly (committing_writeOperand dst w _) fun _ ↦ quiet_modifyFlags _

theorem committing_byteSwap (i : Instruction) : Committing (byteSwap i) := by
  refine .read (i.reading_operand 0) fun dst ↦ .read dst.reading_width fun w ↦ ?_
  have hswap : Committing (readOperand dst w >>= fun v ↦ writeOperand dst w (swapBytes w v)) :=
    .read (reading_readOperand dst w) fun _ ↦ committing_writeOperand dst w _
  exact .ite (.read reading_unsupported fun _ ↦ hswap) hswap

/-! ### Moves -/

theorem committing_move (i : Instruction) : Committing (move i) :=
  .read (i.reading_operand 0) fun dst ↦ .read dst.reading_width fun w ↦
    .read (i.reading_operand 1) fun src ↦ .read (reading_readOperand src w) fun _ ↦
      committing_writeOperand dst w _

theorem committing_moveExtended (signed : Bool) (i : Instruction) :
    Committing (moveExtended signed i) :=
  .read (i.reading_operand 0) fun dst ↦ .read (i.reading_operand 1) fun src ↦
    .read src.reading_width fun w ↦ .read dst.reading_width fun wide ↦
      .read (reading_readOperand src w) fun _ ↦ committing_writeOperand dst wide _

theorem committing_loadAddress (i : Instruction) : Committing (loadAddress i) := by
  refine .read (i.reading_operand 0) fun dst ↦ .read (i.reading_operand 1) fun src ↦ ?_
  cases src with
  | memory m =>
    exact .read (reading_offset m) fun _ ↦ .read dst.reading_width fun w ↦
      committing_writeOperand dst w _
  | register r => exact reading_invalid.committing
  | immediate value size => exact reading_invalid.committing
  | branch target => exact reading_invalid.committing
  | implicit => exact reading_invalid.committing

theorem reading_slotWidth (i : Instruction) : Reading (slotWidth i) := by
  rw [slotWidth]
  split
  · exact .pure _
  · exact .pure _
  · exact reading_unsupported

theorem committing_pushOperand (i : Instruction) : Committing (pushOperand i) :=
  .read (reading_slotWidth i) fun w ↦ .read (i.reading_operand 0) fun src ↦
    .read (reading_readOperand src w) fun _ ↦ committing_push w _

/-- A pop to memory moves the stack pointer of the copy first, and a refused store drops it. -/
theorem committing_popOperand (i : Instruction) : Committing (popOperand i) :=
  .read (reading_slotWidth i) fun w ↦ .read (i.reading_operand 0) fun dst ↦
    .read (reading_pop w) fun _ ↦ committing_writeOperand dst w _

theorem reading_leave : Reading leave :=
  .bind (quiet_general _).reading fun _ ↦ .bind (quiet_setGeneral _ _).reading fun _ ↦
    .bind (reading_pop _) fun _ ↦ (quiet_setGeneral _ _).reading

theorem committing_moveIf (taken : Bool) (i : Instruction) : Committing (moveIf taken i) :=
  .read (i.reading_operand 0) fun dst ↦ .read dst.reading_width fun w ↦
    .read (i.reading_operand 1) fun src ↦ .read (reading_readOperand src w) fun _ ↦
      .ite (committing_writeOperand dst w _) <|
        .ite (.read (reading_readOperand dst w) fun _ ↦ committing_writeOperand dst w _)
          (Quiet.pure ()).committing

theorem committing_moveOn (c : Condition) (i : Instruction) : Committing (moveOn c i) :=
  .read quiet_flags.reading fun _ ↦ committing_moveIf _ i

theorem committing_setIf (value : Bool) (i : Instruction) : Committing (setIf value i) :=
  .read (i.reading_operand 0) fun dst ↦ committing_writeOperand dst .byte _

theorem committing_setOn (c : Condition) (i : Instruction) : Committing (setOn c i) :=
  .read quiet_flags.reading fun _ ↦ committing_setIf _ i

theorem quiet_widenAccumulator (w : Width) : Quiet (widenAccumulator w) :=
  .bind (quiet_general _) fun _ ↦ quiet_setGeneralLow _ w _

theorem quiet_widenPair (w : Width) : Quiet (widenPair w) :=
  .bind (quiet_generalLow _ w) fun _ ↦ quiet_setGeneralLow _ w _

theorem quiet_loadFlagByte : Quiet loadFlagByte :=
  .bind quiet_registers fun _ ↦ .bind (quiet_general _) fun _ ↦ quiet_setGeneral _ _

theorem quiet_storeFlagByte : Quiet storeFlagByte :=
  .bind (quiet_general _) fun _ ↦ quiet_modifyFlags _

theorem committing_pushFlags (i : Instruction) : Committing (pushFlags i) :=
  .read (reading_slotWidth i) fun w ↦ .read quiet_registers.reading fun _ ↦ committing_push w _

theorem reading_popFlags (i : Instruction) : Reading (popFlags i) :=
  .bind (reading_slotWidth i) fun w ↦ .bind (reading_pop w) fun _ ↦ (quiet_modifyFlags _).reading

theorem quiet_identify : Quiet identify :=
  .bind (quiet_general _) fun _ ↦ .bind (quiet_setGeneral _ _) fun _ ↦
    .bind (quiet_setGeneral _ _) fun _ ↦ .bind (quiet_setGeneral _ _) fun _ ↦
      quiet_setGeneral _ _

theorem quiet_readTimeStamp : Quiet readTimeStamp :=
  .bind quiet_get fun _ ↦ .bind (quiet_setGeneral _ _) fun _ ↦ quiet_setGeneral _ _

/-! ### Control -/

theorem reading_target (i : Instruction) : Reading (target i) := by
  refine .bind (i.reading_operand 0) fun o ↦ ?_
  cases o with
  | implicit => exact reading_unsupported
  | immediate value size => exact reading_unsupported
  | register r => exact reading_readOperand _ .qword
  | memory m => exact reading_readOperand _ .qword
  | branch target => exact reading_readOperand _ .qword

theorem reading_branchIf (taken : Bool) (i : Instruction) : Reading (branchIf taken i) :=
  .ite (.bind (reading_target i) fun _ ↦ .pure _) (.pure _)

theorem reading_jumpOn (c : Condition) (i : Instruction) : Reading (jumpOn c i) :=
  .bind quiet_flags.reading fun _ ↦ reading_branchIf _ i

/-- A call through memory loads its target before it pushes. -/
theorem committing_call (i : Instruction) : Committing (call i) :=
  .read (reading_target i) fun _ ↦ .quietly (committing_push _ _) fun _ ↦ .pure _

theorem reading_ret (i : Instruction) : Reading (ret i) := by
  refine .bind (reading_pop _) fun a ↦ ?_
  split
  · exact .bind (quiet_general _).reading fun _ ↦ .bind (quiet_setGeneral _ _).reading fun _ ↦
      .pure _
  · exact .pure _

theorem reading_loop (kind : LoopKind) (i : Instruction) : Reading (loop kind i) :=
  .bind (quiet_general _).reading fun _ ↦ .bind (quiet_setGeneral _ _).reading fun _ ↦
    .bind quiet_flags.reading fun _ ↦ reading_branchIf _ i

theorem reading_jumpIfCounterZero (wide : Bool) (i : Instruction) :
    Reading (jumpIfCounterZero wide i) :=
  .bind (quiet_general _).reading fun _ ↦ reading_branchIf _ i

theorem quiet_syscall (i : Instruction) : Quiet (syscall i) :=
  .bind (quiet_setGeneral _ _) fun _ ↦ .bind quiet_registers fun _ ↦
    .bind (quiet_setGeneral _ _) fun _ ↦ .pure _

end LongMode.Exec
