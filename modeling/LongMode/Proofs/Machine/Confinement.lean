import LongMode.Proofs.Machine.LockPrefix
import LongMode.Proofs.Register.Flags

/-!
Registers that a program cannot change: the segment selectors, the bases of FS and GS, the flags
that are not its own to load, and the reserved half of the vector control word.

`RegisterFile.Confines` compares a register file with an earlier one, and a computation is confined
(`Exec.Confined`) if it keeps that comparison, whether it faults or not. Flag words are the one
thing that instructions read, change and write back, so what is read from the flag word is known to
be confined where it is written (`Exec.confined_flags_bind`, `Exec.confined_atomically_bind`). That
the building blocks of instructions are confined is tagged for `grind`, which composes them;
instructions follow in `LongMode.Proofs.Machine.Confined`.
-/

set_option autoImplicit false
set_option relaxedAutoImplicit false

namespace LongMode

/-! ### What is out of reach -/

/-- The positions of the flag word that a program can change: those of the flags that it may load
from the stack, and bit 1, which is put to one. -/
def Flags.reachable : List Nat :=
  1 :: Flag.userWritable.map Flag.position

/-- Register files that differ within the reach of a program. -/
structure RegisterFile.Confines (r r' : RegisterFile) : Prop where
  segments : r'.segments = r.segments
  fsBase : r'.fsBase = r.fsBase
  gsBase : r'.gsBase = r.gsBase
  rflags : r.rflags.Agree Flags.reachable r'.rflags
  mxcsr : r.mxcsr.toNat < 0x10000 → r'.mxcsr.toNat < 0x10000

namespace RegisterFile.Confines

variable {r r' : RegisterFile}

theorem refl (r : RegisterFile) : r.Confines r :=
  ⟨rfl, rfl, rfl, .refl _ _, id⟩

/-- General and vector registers and the instruction pointer may hold anything. -/
theorem congr {r'' : RegisterFile} (h : r.Confines r')
    (hrest : { r' with general := r''.general, rip := r''.rip, xmm := r''.xmm } = r'') :
    r.Confines r'' := by
  rw [← hrest]
  exact ⟨h.segments, h.fsBase, h.gsBase, h.rflags, h.mxcsr⟩

theorem setFlags (h : r.Confines r') {f : Flags} (hf : r.rflags.Agree Flags.reachable f) :
    r.Confines { r' with rflags := f } :=
  ⟨h.segments, h.fsBase, h.gsBase, hf, h.mxcsr⟩

theorem setControl (h : r.Confines r') {control : BitVec 32}
    (hcontrol : r'.mxcsr.toNat < 0x10000 → control.toNat < 0x10000) :
    r.Confines { r' with mxcsr := control } :=
  ⟨h.segments, h.fsBase, h.gsBase, h.rflags, fun hlow ↦ hcontrol (h.mxcsr hlow)⟩

theorem of_write? {after : RegisterFile} {name : Register} {value : BitVec 64}
    (h : r.Confines r') (hwrite : r'.write? name value = some after) : r.Confines after := by
  obtain ⟨part, _, rfl⟩ := Option.map_eq_some_iff.mp hwrite
  exact h.congr rfl

end RegisterFile.Confines

/-! ### Flag words that instructions make -/

section FlagWords

open Flags (reachable)

variable {n : Nat} {origin f : Flags}

theorem Alu.agree_setResult (h : origin.Agree reachable f) (v : BitVec n) :
    origin.Agree reachable (setResult f v) :=
  ((h.set (by decide) _).set (by decide) _).set (by decide) _

theorem Alu.agree_add (h : origin.Agree reachable f) (a b : BitVec n) (carry : Bool) :
    origin.Agree reachable (add f a b carry).2 :=
  agree_setResult (((h.set (by decide) _).set (by decide) _).set (by decide) _) _

theorem Alu.agree_sub (h : origin.Agree reachable f) (a b : BitVec n) (borrow : Bool) :
    origin.Agree reachable (sub f a b borrow).2 :=
  agree_setResult (((h.set (by decide) _).set (by decide) _).set (by decide) _) _

theorem Alu.agree_logic (h : origin.Agree reachable f) (v : BitVec n) :
    origin.Agree reachable (logic f v).2 :=
  agree_setResult (h.clear (by decide)) v

theorem AluOp.agree_apply (h : origin.Agree reachable f) (op : AluOp) (a b : BitVec n) :
    origin.Agree reachable (op.apply f a b).2 := by
  cases op with
  | add => exact Alu.agree_add h a b _
  | adc => exact Alu.agree_add h a b _
  | sub => exact Alu.agree_sub h a b _
  | sbb => exact Alu.agree_sub h a b _
  | and => exact Alu.agree_logic h _
  | or => exact Alu.agree_logic h _
  | xor => exact Alu.agree_logic h _

theorem UnaryOp.agree_apply (h : origin.Agree reachable f) (op : UnaryOp) (a : BitVec n) :
    origin.Agree reachable (op.apply f a).2 := by
  cases op with
  | inc => exact (Alu.agree_add h a 1 false).set (by decide) _
  | dec => exact (Alu.agree_sub h a 1 false).set (by decide) _
  | neg => exact (Alu.agree_sub h 0 a false).set (by decide) _
  | not => exact h

theorem BitOp.agree_apply (h : origin.Agree reachable f) (op : BitOp) (a : BitVec n) (bit : Nat) :
    origin.Agree reachable (op.apply f a bit).2 := by
  have hbit : origin.Agree reachable ((f.clear BitOp.cleared).set .carry (a.getLsbD bit)) :=
    (h.clear (by decide)).set (by decide) _
  cases op <;> exact hbit

theorem Shift.agree_flags (h : origin.Agree reachable f) (v : BitVec n) (carry overflow : Bool) :
    origin.Agree reachable (Shift.flags f v carry overflow) :=
  Alu.agree_setResult (((h.set (by decide) _).set (by decide) _).set (by decide) _) v

theorem ShiftOp.agree_apply (h : origin.Agree reachable f) (op : ShiftOp) (v : BitVec n)
    (count : Nat) : origin.Agree reachable (op.apply f v count).2 := by
  have hrotate (carry overflow : Bool) :
      origin.Agree reachable ((f.set .carry carry).set .overflow overflow) :=
    (h.set (by decide) _).set (by decide) _
  unfold apply
  split
  · exact h
  · cases op with
    | shl => exact Shift.agree_flags h _ _ _
    | sal => exact Shift.agree_flags h _ _ _
    | shr => exact Shift.agree_flags h _ _ _
    | sar => exact Shift.agree_flags h _ _ _
    | rol => exact hrotate _ _
    | ror => exact hrotate _ _

theorem Shift.agree_double (h : origin.Agree reachable f) (left : Bool) (dest src : BitVec n)
    (count : Nat) {outcome : BitVec n × Flags}
    (hdouble : double left f dest src count = .ok outcome) : origin.Agree reachable outcome.2 := by
  unfold double at hdouble
  split at hdouble
  · cases hdouble
    exact h
  · split at hdouble
    · obtain ⟨_, -, hdouble⟩ := exists_ok_of_bind hdouble
      obtain ⟨_, -, hdouble⟩ := exists_ok_of_bind hdouble
      obtain ⟨_, -, hdouble⟩ := exists_ok_of_bind hdouble
      obtain ⟨_, -, hdouble⟩ := exists_ok_of_bind hdouble
      cases hdouble
      exact agree_flags h _ _ _
    · obtain ⟨_, -, hdouble⟩ := exists_ok_of_bind hdouble
      obtain ⟨_, -, hdouble⟩ := exists_ok_of_bind hdouble
      obtain ⟨_, -, hdouble⟩ := exists_ok_of_bind hdouble
      cases hdouble
      exact agree_flags h _ _ _

theorem Exec.agree_productFlags (h : origin.Agree reachable f) (low : BitVec n) (overflow : Bool) :
    origin.Agree reachable (productFlags f low overflow) :=
  Alu.agree_setResult (((h.set (by decide) _).set (by decide) _).set (by decide) _) low

theorem Exec.agree_scanFlags (h : origin.Agree reachable f) (empty : Bool) :
    origin.Agree reachable (scanFlags f empty) :=
  (h.clear (by decide)).set (by decide) _

theorem Exec.agree_zeroCountFlags (h : origin.Agree reachable f) (v result : BitVec n) :
    origin.Agree reachable (zeroCountFlags f v result) :=
  ((h.clear (by decide)).set (by decide) _).set (by decide) _

/-- A mask of flags that a program may load covers nothing out of reach. -/
theorem Flags.getLsbD_mask_of_notMem {flags : List Flag}
    (hflags : ∀ flag ∈ flags, flag.position ∈ reachable) {i : Nat} (hi : i ∉ reachable) :
    (Flags.mask flags).getLsbD i = false := by
  rw [Flags.getLsbD_mask, decide_eq_false_iff_not, List.mem_map]
  rintro ⟨flag, hflag, rfl⟩
  exact hi (hflags flag hflag)

end FlagWords

namespace Exec

variable {r : RegisterFile} {α β : Type}

/-! ### Sequences and choices -/

/-- A computation leads from a machine with registers confined by `r` to such a machine. -/
def Confined (r : RegisterFile) (c : Exec α) : Prop :=
  ∀ m : Machine, r.Confines m.registers → r.Confines (c.exec m).2.registers

@[grind ←] theorem confined_pure (v : α) : Confined r (pure v : Exec α) :=
  fun _ h ↦ h

@[grind ←] theorem confined_bind {c : Exec α} {k : α → Exec β} (hc : Confined r c)
    (hk : ∀ v, Confined r (k v)) : Confined r (c >>= k) := by
  intro m hm
  have hfirst := hc m hm
  cases hexec : c.exec m with
  | mk outcome m' =>
    rw [hexec] at hfirst
    cases outcome with
    | error e =>
      rw [exec_bind_of_error hexec]
      exact hfirst
    | ok v =>
      rw [exec_bind_of_ok hexec]
      exact hk v m' hfirst

@[grind ←] theorem confined_fault (f : Fault) : Confined r (fault f : Exec α) :=
  fun _ h ↦ h

@[grind ←] theorem confined_unsupported : Confined r (unsupported : Exec α) :=
  fun _ h ↦ h

@[grind ←] theorem confined_invalid : Confined r (invalid : Exec α) :=
  fun _ h ↦ h

@[grind ←] theorem confined_orUnsupported (o : Option α) : Confined r (orUnsupported o) := by
  cases o <;> grind [orUnsupported]

@[grind ←] theorem confined_ofMemory (e : Except MemoryFault α) : Confined r (ofMemory e) := by
  cases e <;> grind [ofMemory]

/-- What comes after a calculation goes on with what it gives. -/
@[grind ←] theorem confined_orPanic_bind {e : Except Panic α} {k : α → Exec β}
    (hk : ∀ v, e = .ok v → Confined r (k v)) : Confined r (orPanic e >>= k) := by
  cases e with
  | error p => exact fun _ h ↦ h
  | ok v => exact hk v rfl

/-! ### Registers -/

@[grind ←] theorem confined_get : Confined r (get : Exec Machine) :=
  fun _ h ↦ h

@[grind ←] theorem confined_registers : Confined r registers :=
  fun _ h ↦ h

theorem confined_modifyRegisters {g : RegisterFile → RegisterFile}
    (hg : ∀ r', r.Confines r' → r.Confines (g r')) : Confined r (modifyRegisters g) :=
  fun m h ↦ hg m.registers h

/-- What is read from the flag word is confined. -/
@[grind ←] theorem confined_flags_bind {k : Flags → Exec β}
    (hk : ∀ f, r.rflags.Agree Flags.reachable f → Confined r (k f)) :
    Confined r (flags >>= k) :=
  fun m h ↦ hk _ h.rflags m h

@[grind ←] theorem confined_setFlags {f : Flags} (hf : r.rflags.Agree Flags.reachable f) :
    Confined r (setFlags f) :=
  confined_modifyRegisters fun _ h ↦ h.setFlags hf

@[grind ←] theorem confined_modifyFlags {g : Flags → Flags}
    (hg : ∀ f, r.rflags.Agree Flags.reachable f → r.rflags.Agree Flags.reachable (g f)) :
    Confined r (modifyFlags g) :=
  confined_modifyRegisters fun _ h ↦ h.setFlags (hg _ h.rflags)

@[grind ←] theorem confined_general (index : Fin 16) : Confined r (general index) :=
  fun _ h ↦ h

@[grind ←] theorem confined_setGeneral (index : Fin 16) (value : BitVec 64) :
    Confined r (setGeneral index value) :=
  confined_modifyRegisters fun _ h ↦ h.congr rfl

@[grind ←] theorem confined_generalLow (index : Fin 16) (w : Width) :
    Confined r (generalLow index w) :=
  fun _ h ↦ h

@[grind ←] theorem confined_setGeneralLow (index : Fin 16) (w : Width) (value : BitVec w.bits) :
    Confined r (setGeneralLow index w value) :=
  confined_modifyRegisters fun _ h ↦ h.congr rfl

@[grind ←] theorem confined_readRegister (name : Register) : Confined r (readRegister name) := by
  unfold readRegister
  grind

@[grind ←] theorem confined_writeRegister (name : Register) (value : BitVec 64) :
    Confined r (writeRegister name value) := by
  intro m hm
  rw [exec_writeRegister]
  cases hwrite : m.registers.write? name value with
  | none => exact hm
  | some after => exact hm.of_write? hwrite

@[grind ←] theorem confined_vector (index : Fin 16) : Confined r (vector index) :=
  fun _ h ↦ h

@[grind ←] theorem confined_setVector (index : Fin 16) (value : Vector128) :
    Confined r (setVector index value) :=
  confined_modifyRegisters fun _ h ↦ h.congr rfl

/-! ### Addresses and memory -/

@[grind ←] theorem confined_segmentBase (s : Segment) : Confined r (segmentBase s) := by
  unfold segmentBase
  grind

@[grind ←] theorem confined_addressPart (o : Option Register) : Confined r (addressPart o) := by
  unfold addressPart
  grind

@[grind ←] theorem confined_offset (o : MemoryOperand) : Confined r (offset o) := by
  unfold offset
  grind

@[grind ←] theorem confined_linear (o : MemoryOperand) : Confined r (linear o) := by
  unfold linear
  grind

@[grind ←] theorem confined_memory : Confined r memory :=
  fun _ h ↦ h

@[grind ←] theorem confined_check (access : Access) (a : Address) (length : Nat) :
    Confined r (check access a length) := by
  unfold check
  grind

@[grind ←] theorem confined_loadBytes (a : Address) (count : Nat) :
    Confined r (loadBytes a count) := by
  unfold loadBytes
  grind

@[grind ←] theorem confined_record (m : Memory) (a : Address) (bytes : List UInt8) :
    Confined r (record m a bytes) :=
  fun _ h ↦ h

@[grind ←] theorem confined_storeBytes (a : Address) (bytes : List UInt8) :
    Confined r (storeBytes a bytes) := by
  unfold storeBytes
  grind

@[grind ←] theorem confined_loadWord (a : Address) (size : Nat) : Confined r (loadWord a size) := by
  unfold loadWord
  grind

@[grind ←] theorem confined_storeWord (a : Address) (size : Nat) (value : BitVec (8 * size)) :
    Confined r (storeWord a size value) :=
  confined_storeBytes a _

@[grind ←] theorem confined_load (a : Address) (w : Width) : Confined r (load a w) :=
  confined_loadWord a w.bytes

@[grind ←] theorem confined_store (a : Address) (w : Width) (value : BitVec w.bits) :
    Confined r (store a w value) :=
  confined_storeBytes a _

/-- An indivisible update goes on with what its function makes of some word. -/
@[grind ←] theorem confined_atomically_bind {a : Address} {w : Width}
    {g : BitVec w.bits → BitVec w.bits × α} {k : α → Exec β}
    (hk : ∀ old, Confined r (k (g old).2)) : Confined r (atomically a w g >>= k) := by
  intro m hm
  cases hread : m.memory.check .read a w.bytes with
  | error e =>
    rw [exec_bind_of_error (exec_atomically_of_error (.inl hread))]
    exact hm
  | ok =>
    cases hwrite : m.memory.check .write a w.bytes with
    | error e =>
      rw [exec_bind_of_error (exec_atomically_of_error (.inr ⟨hread, hwrite⟩))]
      exact hm
    | ok =>
      obtain ⟨m', hexec, hregisters, _⟩ := exec_atomically hread hwrite
      rw [exec_bind_of_ok hexec]
      exact hk _ m' (hregisters ▸ hm)

@[grind ←] theorem confined_atomically (a : Address) (w : Width)
    (g : BitVec w.bits → BitVec w.bits × α) : Confined r (atomically a w g) := by
  rw [← bind_pure (atomically a w g)]
  exact confined_atomically_bind fun _ ↦ confined_pure _

/-! ### Operands -/

@[grind ←] theorem confined_operand (i : Instruction) (index : Nat) :
    Confined r (i.operand index) :=
  confined_orUnsupported _

@[grind ←] theorem confined_width (o : Operand) : Confined r o.width :=
  confined_orUnsupported _

@[grind ←] theorem confined_readOperand (o : Operand) (w : Width) :
    Confined r (readOperand o w) := by
  unfold readOperand
  grind

@[grind ←] theorem confined_writeOperand (o : Operand) (w : Width) (value : BitVec w.bits) :
    Confined r (writeOperand o w value) := by
  unfold writeOperand
  grind

/-- An update puts what its function makes of the flag word in the flag word. -/
@[grind ←] theorem confined_tryUpdate {o : Operand} {w : Width} {store : Bool}
    {g : Flags → BitVec w.bits → Except Panic (BitVec w.bits × Flags)}
    (hg : ∀ f old outcome, r.rflags.Agree Flags.reachable f → g f old = .ok outcome →
      r.rflags.Agree Flags.reachable outcome.2) :
    Confined r (tryUpdate o w store g) := by
  unfold tryUpdate
  grind

@[grind ←] theorem confined_update {o : Operand} {w : Width} {store : Bool}
    {g : Flags → BitVec w.bits → BitVec w.bits × Flags}
    (hg : ∀ f old, r.rflags.Agree Flags.reachable f →
      r.rflags.Agree Flags.reachable (g f old).2) :
    Confined r (update o w store g) :=
  confined_tryUpdate fun f old _ hf h ↦ Except.ok.inj h ▸ hg f old hf

@[grind ←] theorem confined_updateLocked {a : Address} {w : Width}
    {g : Flags → BitVec w.bits → BitVec w.bits × Flags}
    (hg : ∀ f old, r.rflags.Agree Flags.reachable f →
      r.rflags.Agree Flags.reachable (g f old).2) :
    Confined r (updateLocked a w g) := by
  unfold updateLocked
  grind

@[grind ←] theorem confined_push (w : Width) (value : BitVec w.bits) :
    Confined r (push w value) := by
  unfold push
  grind

@[grind ←] theorem confined_pop (w : Width) : Confined r (pop w) := by
  unfold pop
  grind

end Exec

end LongMode
