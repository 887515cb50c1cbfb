import LongMode.Machine.FloatingPoint
import LongMode.Proofs.Machine.Discipline

/-!
Instructions on vector registers commit. Most of them change registers only; those that store check
the alignment of the address, read the vector, and store as the last thing.
-/

set_option autoImplicit false
set_option relaxedAutoImplicit false

namespace LongMode.Exec

/-! ### Operands -/

theorem quiet_vector (index : Fin 16) : Quiet (vector index) :=
  .bind quiet_registers fun _ ↦ .pure _

theorem quiet_setVector (index : Fin 16) (value : Vector128) : Quiet (setVector index value) :=
  quiet_modifyRegisters fun _ ↦ rfl

theorem reading_vectorIndex (o : Operand) : Reading (vectorIndex o) := by
  cases o with
  | register r => exact reading_orUnsupported _
  | immediate value size => exact reading_invalid
  | memory m => exact reading_invalid
  | branch target => exact reading_invalid
  | implicit => exact reading_invalid

/-- The vector register that an operand names, as a value. -/
theorem reading_vectorOf (o : Operand) : Reading (vectorIndex o >>= vector) :=
  .bind (reading_vectorIndex o) fun index ↦ (quiet_vector index).reading

theorem reading_vectorAddress (m : MemoryOperand) (aligned : Bool) :
    Reading (vectorAddress m aligned) :=
  .bind (reading_linear m) fun a ↦ .unless (.pure a)

theorem reading_loadVector (m : MemoryOperand) (aligned : Bool) : Reading (loadVector m aligned) :=
  .bind (reading_vectorAddress m aligned) fun a ↦ reading_loadWord a 16

theorem reading_readVector (o : Operand) (aligned : Bool) : Reading (readVector o aligned) := by
  cases o with
  | register r => exact reading_vectorOf _
  | memory m => exact reading_loadVector m aligned
  | immediate value size => exact reading_invalid
  | branch target => exact reading_invalid
  | implicit => exact reading_invalid

theorem reading_readLow (o : Operand) (w : Width) : Reading (readLow o w) := by
  unfold readLow
  split
  · exact .bind (quiet_vector _).reading fun _ ↦ .pure _
  · exact .bind (reading_readRegister _) fun _ ↦ .pure _
  · exact .bind (reading_linear _) fun a ↦ reading_load a w
  · exact reading_invalid

theorem reading_constant (i : Instruction) (index : Nat) : Reading (constant i index) := by
  refine .bind (i.reading_operand index) fun o ↦ ?_
  cases o with
  | immediate value size => exact .pure _
  | register r => exact reading_invalid
  | memory m => exact reading_invalid
  | branch target => exact reading_invalid
  | implicit => exact reading_invalid

/-! ### Moves -/

theorem committing_moveVector (aligned : Bool) (i : Instruction) :
    Committing (moveVector aligned i) := by
  refine .read (i.reading_operand 0) fun dst ↦ .read (i.reading_operand 1) fun src ↦ ?_
  cases dst with
  | register r =>
    exact .read (reading_vectorIndex _) fun d ↦ .read (reading_readVector src aligned) fun v ↦
      (quiet_setVector d v).committing
  | memory m =>
    exact .read (reading_vectorIndex src) fun index ↦ .read (quiet_vector index).reading fun v ↦
      .read (reading_vectorAddress m aligned) fun a ↦ committing_storeWord a 16 v
  | immediate value size => exact reading_invalid.committing
  | branch target => exact reading_invalid.committing
  | implicit => exact reading_invalid.committing

theorem committing_moveWord (w : Width) (i : Instruction) : Committing (moveWord w i) := by
  refine .read (i.reading_operand 0) fun dst ↦ .read (i.reading_operand 1) fun src ↦
    .read (reading_readLow src w) fun v ↦ ?_
  split
  · exact (quiet_setVector _ _).committing
  · exact committing_writeOperand dst w v

theorem committing_moveScalar (w : Width) (i : Instruction) : Committing (moveScalar w i) := by
  refine .read (i.reading_operand 0) fun dst ↦ .read (i.reading_operand 1) fun src ↦ ?_
  split
  · exact .read (reading_vectorIndex _) fun d ↦ .read (reading_vectorIndex _) fun s ↦
      .read (quiet_vector s).reading fun _ ↦ .read (quiet_vector d).reading fun _ ↦
        (quiet_setVector d _).committing
  · exact .read (reading_vectorIndex _) fun d ↦ .read (reading_readLow _ w) fun _ ↦
      (quiet_setVector d _).committing
  · exact .read (reading_vectorIndex _) fun s ↦ .read (quiet_vector s).reading fun _ ↦
      .read (reading_linear _) fun a ↦ committing_store a w _
  · exact reading_invalid.committing

theorem committing_moveHalf (high : Bool) (i : Instruction) : Committing (moveHalf high i) := by
  refine .read (i.reading_operand 0) fun dst ↦ .read (i.reading_operand 1) fun src ↦ ?_
  split
  · exact .read (reading_vectorIndex _) fun d ↦ .read (reading_linear _) fun a ↦
      .read (reading_load a _) fun _ ↦ .read (quiet_vector d).reading fun _ ↦
        (quiet_setVector d _).committing
  · exact .read (reading_vectorIndex _) fun s ↦ .read (quiet_vector s).reading fun _ ↦
      .read (reading_linear _) fun a ↦ committing_store a .qword _
  · exact reading_invalid.committing

theorem reading_moveAcross (fromHigh : Bool) (i : Instruction) : Reading (moveAcross fromHigh i) :=
  .bind (i.reading_operand 0) fun _ ↦ .bind (reading_vectorIndex _) fun d ↦
    .bind (i.reading_operand 1) fun _ ↦ .bind (reading_vectorIndex _) fun s ↦
      .bind (quiet_vector s).reading fun _ ↦ .bind (quiet_vector d).reading fun _ ↦
        (quiet_setVector d _).reading

/-! ### Packed integers -/

theorem reading_packed (op : PackedOp) (i : Instruction) : Reading (packed op i) :=
  .bind (i.reading_operand 0) fun _ ↦ .bind (reading_vectorIndex _) fun d ↦
    .bind (i.reading_operand 1) fun src ↦ .bind (reading_readVector src true) fun _ ↦
      .bind (quiet_vector d).reading fun _ ↦ (quiet_setVector d _).reading

theorem reading_packedShift (op : LaneShift) (w : Width) (i : Instruction) :
    Reading (packedShift op w i) := by
  refine .bind (i.reading_operand 0) fun _ ↦ .bind (reading_vectorIndex _) fun d ↦
    .bind (i.reading_operand 1) fun src ↦ ?_
  have hshift (count : Nat) : Reading (do setVector d (op.apply w (← vector d) count)) :=
    .bind (quiet_vector d).reading fun _ ↦ (quiet_setVector d _).reading
  cases src with
  | immediate value size => exact hshift _
  | register r => exact .bind (reading_readVector _ true) fun _ ↦ hshift _
  | memory m => exact .bind (reading_readVector _ true) fun _ ↦ hshift _
  | branch target => exact .bind (reading_readVector _ true) fun _ ↦ hshift _
  | implicit => exact .bind (reading_readVector _ true) fun _ ↦ hshift _

theorem reading_byteShift (left : Bool) (i : Instruction) : Reading (byteShift left i) :=
  .bind (i.reading_operand 0) fun _ ↦ .bind (reading_vectorIndex _) fun d ↦
    .bind (reading_constant i 1) fun _ ↦ .bind (quiet_vector d).reading fun _ ↦
      (quiet_setVector d _).reading

theorem reading_shuffle (op : ShuffleOp) (i : Instruction) : Reading (shuffle op i) :=
  .bind (i.reading_operand 0) fun _ ↦ .bind (reading_vectorIndex _) fun d ↦
    .bind (i.reading_operand 1) fun src ↦ .bind (reading_readVector src true) fun _ ↦
      .bind (reading_constant i 2) fun _ ↦ .bind (quiet_vector d).reading fun _ ↦
        (quiet_setVector d _).reading

theorem committing_signMask (op : SignMaskOp) (i : Instruction) : Committing (signMask op i) :=
  .read (i.reading_operand 0) fun dst ↦ .read (i.reading_operand 1) fun _ ↦
    .read (reading_vectorIndex _) fun s ↦ .read (quiet_vector s).reading fun _ ↦
      .read dst.reading_width fun w ↦ committing_writeOperand dst w _

theorem committing_extractWord (i : Instruction) : Committing (extractWord i) := by
  refine .read (i.reading_operand 0) fun dst ↦ .read (i.reading_operand 1) fun _ ↦
    .read (reading_vectorIndex _) fun s ↦ .read (quiet_vector s).reading fun _ ↦
      .read (reading_constant i 2) fun _ ↦ ?_
  split
  · exact .read (Operand.reading_width _) fun w ↦ committing_writeOperand _ w _
  · exact committing_writeOperand dst .word _

theorem reading_insertWord (i : Instruction) : Reading (insertWord i) :=
  .bind (i.reading_operand 0) fun _ ↦ .bind (reading_vectorIndex _) fun d ↦
    .bind (i.reading_operand 1) fun src ↦ .bind (reading_readLow src .word) fun _ ↦
      .bind (reading_constant i 2) fun _ ↦ .bind (quiet_vector d).reading fun _ ↦
        (quiet_setVector d _).reading

/-! ### Floating point -/

theorem quiet_signal (bit : BitVec 32) (condition : Bool) : Quiet (signal bit condition) :=
  .ite (quiet_modifyRegisters fun _ ↦ rfl) (.pure ())

theorem reading_floatArithmetic (op : FloatOp) (vectors : Bool) (p : Precision)
    (i : Instruction) : Reading (floatArithmetic op vectors p i) :=
  .bind (i.reading_operand 0) fun _ ↦ .bind (reading_vectorIndex _) fun d ↦
    .bind (i.reading_operand 1) fun src ↦ .ite
      (.bind (reading_readVector src true) fun _ ↦ .bind (quiet_vector d).reading fun _ ↦
        (quiet_setVector d _).reading)
      (.bind (reading_readLow src p.width) fun _ ↦ .bind (quiet_vector d).reading fun _ ↦
        (quiet_setVector d _).reading)

theorem reading_floatFlags (ordered : Bool) (p : Precision) (i : Instruction) :
    Reading (floatFlags ordered p i) :=
  .bind (i.reading_operand 0) fun _ ↦ .bind (reading_vectorIndex _) fun d ↦
    .bind (quiet_vector d).reading fun _ ↦ .bind (i.reading_operand 1) fun src ↦
      .bind (reading_readLow src p.width) fun _ ↦ .bind (quiet_signal _ _).reading fun _ ↦
        (quiet_modifyFlags _).reading

theorem reading_floatMask (vectors : Bool) (p : Precision) (i : Instruction) :
    Reading (floatMask vectors p i) :=
  .bind (i.reading_operand 0) fun _ ↦ .bind (reading_vectorIndex _) fun d ↦
    .bind (i.reading_operand 1) fun src ↦ .bind (reading_constant i 2) fun _ ↦ .ite
      (.bind (reading_readVector src true) fun _ ↦ .bind (quiet_vector d).reading fun _ ↦
        (quiet_setVector d _).reading)
      (.bind (reading_readLow src p.width) fun _ ↦ .bind (quiet_vector d).reading fun _ ↦
        (quiet_setVector d _).reading)

theorem reading_intToFloat (p : Precision) (i : Instruction) : Reading (intToFloat p i) :=
  .bind (i.reading_operand 0) fun _ ↦ .bind (reading_vectorIndex _) fun d ↦
    .bind (i.reading_operand 1) fun src ↦ .bind src.reading_width fun w ↦
      .bind (reading_readOperand src w) fun _ ↦ .bind (quiet_signal _ _).reading fun _ ↦
        .bind (quiet_vector d).reading fun _ ↦ (quiet_setVector d _).reading

theorem committing_floatToInt (truncate : Bool) (p : Precision) (i : Instruction) :
    Committing (floatToInt truncate p i) := by
  refine .read (i.reading_operand 0) fun dst ↦ .read dst.reading_width fun w ↦
    .read (i.reading_operand 1) fun src ↦ .read (reading_readLow src p.width) fun _ ↦
      .read quiet_registers.reading fun _ ↦ ?_
  dsimp only
  split
  · exact .read (quiet_signal _ _).reading fun _ ↦ committing_writeOperand dst w _
  · exact .read (quiet_signal _ _).reading fun _ ↦ committing_writeOperand dst w _

theorem reading_changePrecision (source : Precision) (i : Instruction) :
    Reading (changePrecision source i) :=
  .bind (i.reading_operand 0) fun _ ↦ .bind (reading_vectorIndex _) fun d ↦
    .bind (i.reading_operand 1) fun src ↦ .bind (reading_readLow src source.width) fun _ ↦
      .bind (quiet_vector d).reading fun _ ↦ (quiet_setVector d _).reading

theorem reading_loadControl (i : Instruction) : Reading (loadControl i) :=
  .bind (i.reading_operand 0) fun src ↦ .bind (reading_readOperand src .dword) fun value ↦
    .unless (quiet_modifyRegisters (f := fun r ↦ { r with mxcsr := value.setWidth 32 })
      fun _ ↦ rfl).reading

theorem committing_storeControl (i : Instruction) : Committing (storeControl i) :=
  .read quiet_registers.reading fun _ ↦ .read (i.reading_operand 0) fun dst ↦
    committing_writeOperand dst .dword _

end LongMode.Exec
