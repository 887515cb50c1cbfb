import LongMode.Proofs.Machine.Confinement

/-!
Every instruction is confined. Most of them are sequences of building blocks that are. Those that
make a flag word out of bits from elsewhere, the store of the flag byte and the pop of the flag
word, take the bits under a mask of flags that a program may load, and the load of the vector
control word refuses a word with a bit in the reserved half.

* `Instruction.confined_of_effect`: whatever an instruction does, locked or not, is confined;
* `Machine.confines_execute`: what is out of reach is the same after a completed instruction.
-/

set_option autoImplicit false
set_option relaxedAutoImplicit false

namespace LongMode

namespace Exec

variable {r : RegisterFile}

/-! ### Integers -/

theorem confined_binary (op : AluOp) (store : Bool) (i : Instruction) :
    Confined r (binary op store i) := by
  unfold binary
  grind [AluOp.agree_apply]

theorem confined_unary (op : UnaryOp) (i : Instruction) : Confined r (unary op i) := by
  unfold unary
  grind [UnaryOp.agree_apply]

theorem confined_shift (op : ShiftOp) (i : Instruction) : Confined r (shift op i) := by
  unfold shift
  grind [ShiftOp.agree_apply]

theorem confined_doubleShift (left : Bool) (i : Instruction) :
    Confined r (doubleShift left i) := by
  refine confined_bind (confined_operand i 0) fun dst ↦ confined_bind (confined_width dst) fun w ↦
    confined_bind (confined_operand i 1) fun second ↦
      confined_bind (confined_readOperand second w) fun src ↦
        confined_bind (confined_operand i 2) fun third ↦
          confined_bind (confined_readOperand third .byte) fun count ↦ ?_
  dsimp only
  split
  · exact confined_tryUpdate fun f v outcome hf h ↦ Shift.agree_double hf left v src _ h
  · exact confined_pure ()

@[grind ←] theorem confined_setPair (w : Width) (low high : BitVec w.bits) :
    Confined r (setPair w low high) := by
  unfold setPair
  grind

theorem confined_mul (i : Instruction) : Confined r (mul i) := by
  unfold mul
  grind [agree_productFlags]

theorem confined_imulPair (i : Instruction) : Confined r (imulPair i) := by
  unfold imulPair
  grind [agree_productFlags]

theorem confined_imulLow (i : Instruction) (first second : Nat) :
    Confined r (imulLow i first second) := by
  refine confined_bind (confined_operand i 0) fun dst ↦
    confined_bind (confined_width dst) fun w ↦ ?_
  grind [agree_productFlags]

theorem confined_imul (i : Instruction) : Confined r (imul i) := by
  unfold imul
  grind [confined_imulPair, confined_imulLow]

@[grind ←] theorem confined_dividend (w : Width) : Confined r (dividend w) := by
  unfold dividend
  grind

@[grind ←] theorem confined_setQuotient (w : Width) (quotient remainder : BitVec w.bits) :
    Confined r (setQuotient w quotient remainder) :=
  confined_bind (confined_setPair _ _ _) fun _ ↦ confined_modifyFlags fun _ h ↦ h.clear (by decide)

theorem confined_div (i : Instruction) : Confined r (div i) := by
  unfold div
  grind

theorem confined_idiv (i : Instruction) : Confined r (idiv i) := by
  unfold idiv
  grind

/-! ### Bits -/

@[grind ←] theorem confined_locateBit (dst src : Operand) (w : Width) :
    Confined r (locateBit dst src w) := by
  unfold locateBit
  grind

theorem confined_bit (op : BitOp) (i : Instruction) : Confined r (bit op i) := by
  refine confined_bind (confined_operand i 0) fun dst ↦
    confined_bind (confined_operand i 1) fun src ↦ confined_bind (confined_width dst) fun w ↦
      confined_bind (confined_locateBit dst src w) fun located ↦ ?_
  grind [BitOp.agree_apply]

theorem confined_scan (forward : Bool) (i : Instruction) : Confined r (scan forward i) := by
  unfold scan
  grind [agree_scanFlags]

theorem confined_count (i : Instruction) {result : {n : Nat} → BitVec n → BitVec n}
    {flags : {n : Nat} → Flags → BitVec n → BitVec n → Flags}
    (hflags : ∀ {n : Nat} (f : Flags) (v w : BitVec n), r.rflags.Agree Flags.reachable f →
      r.rflags.Agree Flags.reachable (flags f v w)) : Confined r (count i result flags) := by
  unfold count
  grind

theorem confined_byteSwap (i : Instruction) : Confined r (byteSwap i) := by
  unfold byteSwap
  grind

/-! ### Moves -/

theorem confined_move (i : Instruction) : Confined r (move i) := by
  unfold move
  grind

theorem confined_moveExtended (signed : Bool) (i : Instruction) :
    Confined r (moveExtended signed i) := by
  unfold moveExtended
  grind

theorem confined_loadAddress (i : Instruction) : Confined r (loadAddress i) := by
  unfold loadAddress
  grind

@[grind ←] theorem confined_slotWidth (i : Instruction) : Confined r (slotWidth i) := by
  unfold slotWidth
  grind

theorem confined_pushOperand (i : Instruction) : Confined r (pushOperand i) := by
  unfold pushOperand
  grind

theorem confined_popOperand (i : Instruction) : Confined r (popOperand i) := by
  unfold popOperand
  grind

theorem confined_leave : Confined r leave := by
  unfold leave
  grind

@[grind ←] theorem confined_moveIf (taken : Bool) (i : Instruction) :
    Confined r (moveIf taken i) := by
  unfold moveIf
  grind

theorem confined_moveOn (c : Condition) (i : Instruction) : Confined r (moveOn c i) := by
  unfold moveOn
  grind

@[grind ←] theorem confined_setIf (value : Bool) (i : Instruction) :
    Confined r (setIf value i) := by
  unfold setIf
  grind

theorem confined_setOn (c : Condition) (i : Instruction) : Confined r (setOn c i) := by
  unfold setOn
  grind

theorem confined_widenAccumulator (w : Width) : Confined r (widenAccumulator w) := by
  unfold widenAccumulator
  grind

theorem confined_widenPair (w : Width) : Confined r (widenPair w) := by
  unfold widenPair
  grind

theorem confined_identify : Confined r identify := by
  unfold identify
  grind

theorem confined_readTimeStamp : Confined r readTimeStamp := by
  unfold readTimeStamp
  grind

/-! ### The flag word -/

theorem confined_loadFlagByte : Confined r loadFlagByte := by
  unfold loadFlagByte
  grind

/-- The byte of the accumulator reaches the flags under a mask. -/
theorem confined_storeFlagByte : Confined r storeFlagByte :=
  confined_bind (confined_general _) fun _ ↦ confined_modifyFlags fun _ h ↦
    h.merge (fun _ ↦ Flags.getLsbD_mask_of_notMem (by decide)) _

theorem confined_pushFlags (i : Instruction) : Confined r (pushFlags i) := by
  unfold pushFlags
  grind

/-- A pop of either width takes over the flags that a program may load, and nothing else. -/
theorem confined_popFlags (i : Instruction) : Confined r (popFlags i) := by
  refine confined_bind (confined_slotWidth i) fun w ↦ confined_bind (confined_pop w) fun _ ↦
    confined_modifyFlags fun _ h ↦ (h.merge (fun i hi ↦ ?_) _).or_fixed (by decide)
  have hclear : (Flags.mask Flag.userWritable).getLsbD i = false :=
    Flags.getLsbD_mask_of_notMem (by decide) hi
  rw [poppedFlags, BitVec.getLsbD_and, hclear, Bool.false_and]

theorem confined_changeFlag (op : FlagOp) : Confined r (changeFlag op) :=
  confined_modifyFlags fun _ h ↦ by cases op <;> exact h.set (by decide) _

/-! ### Control -/

@[grind ←] theorem confined_target (i : Instruction) : Confined r (target i) := by
  refine confined_bind (confined_operand i 0) fun o ↦ ?_
  cases o with
  | implicit => exact confined_unsupported
  | immediate value size => exact confined_unsupported
  | register name => exact confined_readOperand _ .qword
  | memory m => exact confined_readOperand _ .qword
  | branch target => exact confined_readOperand _ .qword

@[grind ←] theorem confined_branchIf (taken : Bool) (i : Instruction) :
    Confined r (branchIf taken i) := by
  unfold branchIf
  grind

theorem confined_jumpOn (c : Condition) (i : Instruction) : Confined r (jumpOn c i) := by
  unfold jumpOn
  grind

theorem confined_call (i : Instruction) : Confined r (call i) := by
  unfold call
  grind

theorem confined_ret (i : Instruction) : Confined r (ret i) := by
  refine confined_bind (confined_pop _) fun a ↦ ?_
  grind

theorem confined_loop (kind : LoopKind) (i : Instruction) : Confined r (loop kind i) := by
  unfold loop
  grind

theorem confined_jumpIfCounterZero (wide : Bool) (i : Instruction) :
    Confined r (jumpIfCounterZero wide i) := by
  unfold jumpIfCounterZero
  grind

theorem confined_syscall (i : Instruction) : Confined r (syscall i) := by
  unfold syscall
  grind

/-! ### Indivisible instructions -/

@[grind ←] theorem confined_memoryDestination (i : Instruction) :
    Confined r (memoryDestination i) := by
  unfold memoryDestination
  grind

@[grind ←] theorem confined_sourceRegister (i : Instruction) :
    Confined r (sourceRegister i) := by
  unfold sourceRegister
  grind

theorem confined_exchange (i : Instruction) : Confined r (exchange i) := by
  refine confined_bind (confined_operand i 0) fun first ↦
    confined_bind (confined_operand i 1) fun second ↦ confined_bind (confined_width first) fun w ↦ ?_
  cases first <;> cases second <;> grind

theorem confined_binaryLocked (op : AluOp) (i : Instruction) :
    Confined r (binaryLocked op i) := by
  unfold binaryLocked
  grind [AluOp.agree_apply]

theorem confined_unaryLocked (op : UnaryOp) (i : Instruction) :
    Confined r (unaryLocked op i) := by
  unfold unaryLocked
  grind [UnaryOp.agree_apply]

theorem confined_bitLocked (op : BitOp) (i : Instruction) : Confined r (bitLocked op i) := by
  unfold bitLocked
  grind [BitOp.agree_apply]

theorem confined_exchangeAdd (i : Instruction) : Confined r (exchangeAdd i) := by
  refine confined_bind (confined_operand i 0) fun dst ↦
    confined_bind (confined_sourceRegister i) fun src ↦ confined_bind (confined_width dst) fun w ↦
      confined_bind (confined_readRegister src) fun b ↦ confined_flags_bind fun before h ↦ ?_
  cases dst <;> grind [Alu.agree_add]

theorem confined_compareExchange (i : Instruction) : Confined r (compareExchange i) := by
  refine confined_bind (confined_operand i 0) fun dst ↦
    confined_bind (confined_sourceRegister i) fun src ↦ confined_bind (confined_width dst) fun w ↦
      confined_bind (confined_generalLow _ w) fun expected ↦
        confined_bind (confined_readRegister src) fun replacement ↦ ?_
  cases dst <;> grind [Alu.agree_sub]

@[grind ←] theorem confined_registerPair (w : Width) (high low : Fin 16) :
    Confined r (registerPair w high low) := by
  unfold registerPair
  grind

@[grind ←] theorem confined_finishWideExchange (w : Width)
    (expected old : BitVec (w.bits + w.bits)) : Confined r (finishWideExchange w expected old) := by
  refine confined_bind (confined_modifyFlags fun _ h ↦ h.set (by decide) _) fun _ ↦ ?_
  grind

theorem confined_compareExchange8 (i : Instruction) : Confined r (compareExchange8 i) := by
  refine confined_bind (confined_memoryDestination i) fun m ↦
    confined_bind (confined_registerPair _ _ _) fun expected ↦
      confined_bind (confined_registerPair _ _ _) fun replacement ↦ ?_
  grind

theorem confined_compareExchange16 (i : Instruction) : Confined r (compareExchange16 i) := by
  refine confined_bind (confined_memoryDestination i) fun m ↦
    confined_bind (confined_registerPair _ _ _) fun expected ↦
      confined_bind (confined_registerPair _ _ _) fun replacement ↦ ?_
  grind

theorem confined_locked (i : Instruction) : Confined r (locked i) := by
  rw [locked]
  split
  · exact confined_binaryLocked _ i
  · exact confined_unaryLocked _ i
  · exact confined_bitLocked _ i
  · exact confined_exchange i
  · exact confined_exchangeAdd i
  · exact confined_compareExchange i
  · exact confined_compareExchange8 i
  · exact confined_compareExchange16 i
  · exact confined_invalid

/-! ### Strings -/

@[grind ←] theorem confined_requireWideAddress (i : Instruction) :
    Confined r (requireWideAddress i) := by
  unfold requireWideAddress
  grind

@[grind ←] theorem confined_backwards : Confined r backwards :=
  fun _ h ↦ h

@[grind ←] theorem confined_sourceAddress (i : Instruction) :
    Confined r (sourceAddress i) := by
  unfold sourceAddress
  grind

@[grind ←] theorem confined_advance (index : Fin 16) (count : Nat) (w : Width) :
    Confined r (advance index count w) := by
  unfold advance
  grind

@[grind ←] theorem confined_counter : Confined r counter :=
  fun _ h ↦ h

@[grind ←] theorem confined_span (first : Address) (count : Nat) (w : Width) :
    Confined r (span first count w) := by
  unfold span
  grind

theorem confined_moveElements (w : Width) (back : Bool) (count : Nat) (src dst : Address) :
    Confined r (moveElements w back count src dst) := by
  induction count generalizing src dst with
  | zero => exact confined_pure ()
  | succ count ih =>
    unfold moveElements
    grind

theorem confined_moveChunks (count : Nat) (src dst : Address) (length : Nat) :
    Confined r (moveChunks count src dst length) := by
  induction count generalizing src dst length with
  | zero => exact confined_pure ()
  | succ count ih =>
    unfold moveChunks
    grind

theorem confined_moveRepeated (w : Width) (src dst : Address) (count : Nat) :
    Confined r (moveRepeated w src dst count) := by
  unfold moveRepeated
  grind [confined_moveElements, confined_moveChunks]

theorem confined_moveString (w : Width) (i : Instruction) : Confined r (moveString w i) := by
  unfold moveString
  grind [confined_moveRepeated]

theorem confined_fillChunks (element : List UInt8) (count : Nat) (dst : Address) (length : Nat) :
    Confined r (fillChunks element count dst length) := by
  induction count generalizing dst length with
  | zero => exact confined_pure ()
  | succ count ih =>
    unfold fillChunks
    grind

theorem confined_storeString (w : Width) (i : Instruction) : Confined r (storeString w i) := by
  refine confined_bind (confined_requireWideAddress i) fun _ ↦
    confined_bind (confined_generalLow _ w) fun value ↦ confined_bind (confined_general _) fun dst ↦ ?_
  grind [confined_fillChunks]

theorem confined_loadString (w : Width) (i : Instruction) : Confined r (loadString w i) := by
  refine confined_bind (confined_requireWideAddress i) fun _ ↦
    confined_bind (confined_sourceAddress i) fun src ↦ ?_
  extract_lets repeated load
  have hload (count : Nat) : Confined r (load count) := by
    grind
  clear_value load
  grind

theorem confined_compareRepeated (repetition : Repeat) {step : Exec Unit}
    (hstep : Confined r step) (count : Nat) : Confined r (compareRepeated repetition step count) := by
  induction count with
  | zero => exact confined_pure ()
  | succ count ih =>
    unfold compareRepeated
    grind

@[grind ←] theorem confined_compareAll (i : Instruction) {step : Exec Unit}
    (hstep : Confined r step) : Confined r (compareAll i step) := by
  unfold compareAll
  grind [confined_compareRepeated]

theorem confined_compareStrings (w : Width) (i : Instruction) :
    Confined r (compareStrings w i) := by
  refine confined_bind (confined_requireWideAddress i) fun _ ↦ confined_compareAll i ?_
  grind [Alu.agree_sub]

theorem confined_scanString (w : Width) (i : Instruction) : Confined r (scanString w i) := by
  refine confined_bind (confined_requireWideAddress i) fun _ ↦
    confined_bind (confined_generalLow _ w) fun a ↦ confined_compareAll i ?_
  grind [Alu.agree_sub]

theorem confined_string (op : StringOp) (w : Width) (i : Instruction) :
    Confined r (string op w i) := by
  cases op with
  | movs => exact confined_moveString w i
  | stos => exact confined_storeString w i
  | lods => exact confined_loadString w i
  | cmps => exact confined_compareStrings w i
  | scas => exact confined_scanString w i

/-! ### Vectors -/

@[grind ←] theorem confined_vectorIndex (o : Operand) : Confined r (vectorIndex o) := by
  unfold vectorIndex
  grind

@[grind ←] theorem confined_vectorAddress (m : MemoryOperand) (aligned : Bool) :
    Confined r (vectorAddress m aligned) := by
  unfold vectorAddress
  grind

@[grind ←] theorem confined_loadVector (m : MemoryOperand) (aligned : Bool) :
    Confined r (loadVector m aligned) :=
  confined_bind (confined_vectorAddress m aligned) fun a ↦ confined_loadWord a 16

@[grind ←] theorem confined_readVector (o : Operand) (aligned : Bool) :
    Confined r (readVector o aligned) := by
  unfold readVector
  grind

@[grind ←] theorem confined_readLow (o : Operand) (w : Width) : Confined r (readLow o w) := by
  unfold readLow
  grind

@[grind ←] theorem confined_constant (i : Instruction) (index : Nat) :
    Confined r (constant i index) := by
  unfold constant
  grind

theorem confined_moveVector (aligned : Bool) (i : Instruction) :
    Confined r (moveVector aligned i) := by
  unfold moveVector
  grind

theorem confined_moveWord (w : Width) (i : Instruction) : Confined r (moveWord w i) := by
  unfold moveWord
  grind

theorem confined_moveScalar (w : Width) (i : Instruction) : Confined r (moveScalar w i) := by
  refine confined_bind (confined_operand i 0) fun dst ↦
    confined_bind (confined_operand i 1) fun src ↦ ?_
  cases dst <;> cases src <;> grind

theorem confined_moveHalf (high : Bool) (i : Instruction) : Confined r (moveHalf high i) := by
  refine confined_bind (confined_operand i 0) fun dst ↦
    confined_bind (confined_operand i 1) fun src ↦ ?_
  cases dst <;> cases src <;> grind

theorem confined_moveAcross (fromHigh : Bool) (i : Instruction) :
    Confined r (moveAcross fromHigh i) := by
  unfold moveAcross
  grind

theorem confined_packed (op : PackedOp) (i : Instruction) : Confined r (packed op i) := by
  unfold packed
  grind

theorem confined_packedShift (op : LaneShift) (w : Width) (i : Instruction) :
    Confined r (packedShift op w i) := by
  unfold packedShift
  grind

theorem confined_byteShift (left : Bool) (i : Instruction) : Confined r (byteShift left i) := by
  unfold byteShift
  grind

theorem confined_shuffle (op : ShuffleOp) (i : Instruction) : Confined r (shuffle op i) := by
  unfold shuffle
  grind

theorem confined_signMask (op : SignMaskOp) (i : Instruction) : Confined r (signMask op i) := by
  unfold signMask
  grind

theorem confined_extractWord (i : Instruction) : Confined r (extractWord i) := by
  refine confined_bind (confined_operand i 0) fun dst ↦
    confined_bind (confined_operand i 1) fun src ↦ ?_
  cases dst <;> grind

theorem confined_insertWord (i : Instruction) : Confined r (insertWord i) := by
  unfold insertWord
  grind

/-! ### The vector control word -/

/-- A sticky bit of the lower half leaves the upper half alone. -/
theorem confined_signal {bit : BitVec 32} (hbit : bit.toNat < 0x10000) (condition : Bool) :
    Confined r (signal bit condition) := by
  unfold signal
  split
  · refine confined_modifyRegisters fun r' h ↦ h.setControl fun hlow ↦ ?_
    rw [BitVec.toNat_or]
    exact Nat.or_lt_two_pow (n := 16) hlow hbit
  · exact confined_pure ()

@[grind ←] theorem confined_signal_invalid (condition : Bool) :
    Confined r (signal invalidBit condition) :=
  confined_signal (by decide) condition

@[grind ←] theorem confined_signal_inexact (condition : Bool) :
    Confined r (signal inexactBit condition) :=
  confined_signal (by decide) condition

theorem confined_floatArithmetic (op : FloatOp) (vectors : Bool) (p : Precision)
    (i : Instruction) : Confined r (floatArithmetic op vectors p i) := by
  unfold floatArithmetic
  grind

theorem confined_floatFlags (ordered : Bool) (p : Precision) (i : Instruction) :
    Confined r (floatFlags ordered p i) := by
  refine confined_bind (confined_operand i 0) fun first ↦
    confined_bind (confined_vectorIndex first) fun index ↦ confined_bind (confined_vector index)
      fun a ↦ confined_bind (confined_operand i 1) fun second ↦
        confined_bind (confined_readLow second p.width) fun b ↦
          confined_bind (confined_signal_invalid _) fun _ ↦ confined_modifyFlags fun _ h ↦ ?_
  exact (((h.clear (by decide)).set (by decide) _).set (by decide) _).set (by decide) _

theorem confined_floatMask (vectors : Bool) (p : Precision) (i : Instruction) :
    Confined r (floatMask vectors p i) := by
  unfold floatMask
  grind

theorem confined_intToFloat (p : Precision) (i : Instruction) :
    Confined r (intToFloat p i) := by
  unfold intToFloat
  grind

theorem confined_floatToInt (truncate : Bool) (p : Precision) (i : Instruction) :
    Confined r (floatToInt truncate p i) := by
  refine confined_bind (confined_operand i 0) fun dst ↦
    confined_bind (confined_width dst) fun w ↦ confined_bind (confined_operand i 1) fun src ↦ ?_
  grind

theorem confined_changePrecision (source : Precision) (i : Instruction) :
    Confined r (changePrecision source i) := by
  unfold changePrecision
  grind

/-- A control word with a bit above the lower half is refused. -/
theorem confined_loadControl (i : Instruction) : Confined r (loadControl i) := by
  refine confined_bind (confined_operand i 0) fun src ↦
    confined_bind (confined_readOperand src .dword) fun value ↦ ?_
  have hload (hlow : value.toNat < 0x10000) :
      Confined r (modifyRegisters fun r ↦ { r with mxcsr := value.setWidth 32 }) :=
    confined_modifyRegisters fun _ h ↦ h.setControl fun _ ↦ by
      rw [BitVec.toNat_setWidth]
      exact Nat.lt_of_le_of_lt (Nat.mod_le _ _) hlow
  split
  · exact fun _ h ↦ h
  · exact hload (Nat.lt_of_not_le ‹_›)

theorem confined_storeControl (i : Instruction) : Confined r (storeControl i) := by
  unfold storeControl
  grind

end Exec

/-! ### Instructions -/

open Exec

variable {r : RegisterFile}

theorem Mnemonic.confined_of_straight? (i : Instruction) :
    ∀ {mnemonic : Mnemonic} {c : Exec Unit}, mnemonic.straight? i = some c → Confined r c
  | .alu op, _, rfl => confined_binary op true i
  | .cmp, _, rfl => confined_binary .sub false i
  | .test, _, rfl => confined_binary .and false i
  | .unary op, _, rfl => confined_unary op i
  | .xchg, _, rfl => confined_exchange i
  | .xadd, _, rfl => confined_exchangeAdd i
  | .cmpxchg, _, rfl => confined_compareExchange i
  | .cmpxchg8b, _, rfl => confined_compareExchange8 i
  | .cmpxchg16b, _, rfl => confined_compareExchange16 i
  | .bit op, _, rfl => confined_bit op i
  | .bsf, _, rfl => confined_scan true i
  | .bsr, _, rfl => confined_scan false i
  | .tzcnt, _, rfl => confined_count i fun _ v w h ↦ agree_zeroCountFlags h v w
  | .lzcnt, _, rfl => confined_count i fun _ v w h ↦ agree_zeroCountFlags h v w
  | .popcnt, _, rfl => confined_count i fun _ _ _ h ↦ agree_scanFlags h _
  | .bswap, _, rfl => confined_byteSwap i
  | .int3, _, rfl => confined_fault _
  | .undefined _, _, rfl => confined_fault _
  | .privileged _, _, rfl => confined_fault _
  | .mov, _, rfl => confined_move i
  | .movzx, _, rfl => confined_moveExtended false i
  | .movsx, _, rfl => confined_moveExtended true i
  | .movsxd, _, rfl => confined_moveExtended true i
  | .lea, _, rfl => confined_loadAddress i
  | .push, _, rfl => confined_pushOperand i
  | .pop, _, rfl => confined_popOperand i
  | .leave, _, rfl => confined_leave
  | .cmov c, _, rfl => confined_moveOn c i
  | .setcc c, _, rfl => confined_setOn c i
  | .widenAccumulator w, _, rfl => confined_widenAccumulator w
  | .widenPair w, _, rfl => confined_widenPair w
  | .lahf, _, rfl => confined_loadFlagByte
  | .sahf, _, rfl => confined_storeFlagByte
  | .pushf _, _, rfl => confined_pushFlags i
  | .popf _, _, rfl => confined_popFlags i
  | .flag op, _, rfl => confined_changeFlag op
  | .nop _, _, rfl => confined_pure ()
  | .cpuid, _, rfl => confined_identify
  | .rdtsc, _, rfl => confined_readTimeStamp
  | .mul, _, rfl => confined_mul i
  | .imul, _, rfl => confined_imul i
  | .div, _, rfl => confined_div i
  | .idiv, _, rfl => confined_idiv i
  | .shift op, _, rfl => confined_shift op i
  | .doubleShift left, _, rfl => confined_doubleShift left i
  | .string op w, _, rfl => confined_string op w i
  | .vectorMove op, _, rfl => confined_moveVector op.aligned i
  | .movd, _, rfl => confined_moveWord .dword i
  | .movq, _, rfl => confined_moveWord .qword i
  | .scalarMove p, _, rfl => confined_moveScalar p.width i
  | .halfMove op, _, rfl => confined_moveHalf op.high i
  | .movhlps, _, rfl => confined_moveAcross true i
  | .movlhps, _, rfl => confined_moveAcross false i
  | .movnti, _, rfl => confined_move i
  | .packed op, _, rfl => confined_packed op i
  | .packedShift op w, _, rfl => confined_packedShift op w i
  | .byteShift left, _, rfl => confined_byteShift left i
  | .shuffle op, _, rfl => confined_shuffle op i
  | .signMask op, _, rfl => confined_signMask op i
  | .pextrw, _, rfl => confined_extractWord i
  | .pinsrw, _, rfl => confined_insertWord i
  | .floatArithmetic op vectors p, _, rfl => confined_floatArithmetic op vectors p i
  | .floatFlags ordered p, _, rfl => confined_floatFlags ordered p i
  | .floatMask vectors p, _, rfl => confined_floatMask vectors p i
  | .intToFloat p, _, rfl => confined_intToFloat p i
  | .floatToInt truncate p, _, rfl => confined_floatToInt truncate p i
  | .changePrecision p, _, rfl => confined_changePrecision p i
  | .ldmxcsr, _, rfl => confined_loadControl i
  | .stmxcsr, _, rfl => confined_storeControl i

theorem Mnemonic.confined_of_effect? {i : Instruction} {mnemonic : Mnemonic} {c : Exec Transfer}
    (h : mnemonic.effect? i = some c) : Confined r c := by
  unfold effect? at h
  split at h
  · rw [← Option.some.inj h]
    exact confined_branchIf true i
  · rw [← Option.some.inj h]
    exact confined_jumpOn _ i
  · rw [← Option.some.inj h]
    exact confined_call i
  · rw [← Option.some.inj h]
    exact confined_ret i
  · rw [← Option.some.inj h]
    exact confined_loop _ i
  · rw [← Option.some.inj h]
    exact confined_jumpIfCounterZero _ i
  · rw [← Option.some.inj h]
    exact confined_syscall i
  · obtain ⟨effect, hstraight, rfl⟩ := Option.map_eq_some_iff.mp h
    exact confined_bind (confined_of_straight? i hstraight) fun _ ↦ confined_pure _

/-- No instruction, locked or not, leads out of confinement. -/
theorem Instruction.confined_of_effect {i : Instruction} {c : Exec Transfer}
    (h : i.effect = .ok c) : Confined r c := by
  rw [effect] at h
  split at h
  · split at h
    · rw [← Except.ok.inj h]
      exact confined_bind (confined_locked i) fun _ ↦ confined_pure _
    · cases h
  · split at h
    · rename_i effect heffect
      rw [← Except.ok.inj h]
      exact Mnemonic.confined_of_effect? heffect
    · cases h

namespace Machine

variable {m : Machine} {i : Instruction} {after : Memory} {done : Completion}

/-- Completion moves the instruction pointer and puts bit 1 of the flag word to one. -/
theorem confines_complete (hm : r.Confines m.registers) (i : Instruction) (transfer : Transfer) :
    r.Confines (m.complete i transfer).registers :=
  (hm.setFlags (hm.rflags.or_fixed (by decide))).congr rfl

/-- A completed instruction leaves what is out of reach as it was. -/
theorem confines_execute (hm : r.Confines m.registers) (h : m.execute i = (.ok done, after)) :
    r.Confines done.registers := by
  obtain ⟨effect, transfer, m', heffect, hexec, rfl, rfl⟩ := exists_ends_of_execute h
  have hconfined := Instruction.confined_of_effect heffect m hm
  rw [hexec] at hconfined
  exact confines_complete hconfined i transfer

end Machine

end LongMode
