import LongMode.Proofs.Machine.Straight
import LongMode.Proofs.Memory.Bits
import LongMode.Proofs.Register.File
import LongMode.Proofs.Register.Flags

/-!
Instructions on single bits. With its offset in a register, such an instruction on memory addresses
a string of bits that begins with the operand and goes on in both directions: it loads the element
of the operand width in which the bit lies, and stores it with the bit changed. Seen from outside
elements do not matter. The bit is the one of number `o % 8` in the byte that is `o / 8` places on,
for the offset `o` (`Exec.selected_byte`), and no other bit of memory changes
(`Machine.ChangesBit`). Every other offset is taken modulo the operand width.

* `BitOp.getLsbD_apply`, `BitOp.after_apply`: what an operation does to a word and to the flags;
* `Exec.exec_locateBit`: which element and bit an offset selects;
* `Machine.execute_bit`: the instructions, with a lock prefix or without.
-/

set_option autoImplicit false
set_option relaxedAutoImplicit false

namespace LongMode

/-! ### Operations on a bit -/

/-- What an operation leaves of a bit. -/
def BitOp.result (op : BitOp) (bit : Bool) : Bool :=
  match op with
  | .test => bit
  | .set => true
  | .reset => false
  | .complement => !bit

/-- An operation changes its bit of a word and no other. -/
theorem BitOp.getLsbD_apply (op : BitOp) (f : Flags) {n : Nat} (a : BitVec n) {k : Nat}
    (hk : k < n) (j : Nat) :
    (op.apply f a k).1.getLsbD j = if j = k then op.result (a.getLsbD k) else a.getLsbD j := by
  have hmask : (BitVec.twoPow n k).getLsbD j = decide (j = k) := by
    rw [BitVec.getLsbD_twoPow, decide_eq_true hk, Bool.true_and]
    exact decide_eq_decide.mpr eq_comm
  by_cases hj : j = k
  · subst hj
    rw [decide_eq_true rfl] at hmask
    rw [if_pos rfl]
    cases op with
    | test => rfl
    | set => rw [apply, BitVec.getLsbD_or, hmask, Bool.or_true, result]
    | reset =>
      rw [apply, BitVec.getLsbD_and, BitVec.getLsbD_not, hmask, Bool.not_true, Bool.and_false,
        Bool.and_false, result]
    | complement => rw [apply, BitVec.getLsbD_xor, hmask, Bool.xor_true, result]
  · rw [decide_eq_false hj] at hmask
    rw [if_neg hj]
    cases op with
    | test => rfl
    | set => rw [apply, BitVec.getLsbD_or, hmask, Bool.or_false]
    | reset =>
      rw [apply, BitVec.getLsbD_and, BitVec.getLsbD_not, hmask, Bool.not_false, Bool.and_true]
      by_cases hlt : j < n
      · rw [decide_eq_true hlt, Bool.and_true]
      · rw [BitVec.getLsbD_of_ge a j (Nat.le_of_not_lt hlt), Bool.false_and]
    | complement => rw [apply, BitVec.getLsbD_xor, hmask, Bool.xor_false]

/-- The flags after an operation on a bit: carry is the bit as it was, and zero and all flags that
are not named are as before. -/
structure Flags.AfterBit (before : Flags) (bit : Bool) (after : Flags) : Prop where
  carry : after.get .carry = bit
  zero : after.get .zero = before.get .zero
  cleared : ∀ flag ∈ [Flag.overflow, .sign, .adjust, .parity], after.get flag = false
  others : before.Agree ([Flag.carry, .overflow, .sign, .adjust, .parity].map Flag.position) after

theorem Flags.get_or_fixed (f : Flags) (flag : Flag) : (f ||| fixed).get flag = f.get flag := by
  have hclear : fixed.getLsbD flag.position = false := by
    cases flag <;> decide
  rw [get, get, BitVec.getLsbD_or, hclear, Bool.or_false]

/-- The flags that a program sees after an operation on a bit. -/
theorem BitOp.after_apply (op : BitOp) (f : Flags) {n : Nat} (a : BitVec n) (k : Nat) :
    Flags.AfterBit (f ||| Flags.fixed) (a.getLsbD k) ((op.apply f a k).2 ||| Flags.fixed) := by
  have happly : (op.apply f a k).2 = (f.clear cleared).set .carry (a.getLsbD k) := by
    cases op <;> rfl
  have hagree : f.Agree ([Flag.carry, .overflow, .sign, .adjust, .parity].map Flag.position)
      ((f.clear cleared).set .carry (a.getLsbD k)) :=
    ((Flags.Agree.refl _ f).clear (by decide)).set (by decide) _
  rw [happly]
  constructor
  · rw [Flags.get_or_fixed, Flags.get_set, if_pos rfl]
  · rw [Flags.get_or_fixed, Flags.get_or_fixed, Flags.get_set, Flags.get_clear]
    simp [cleared]
  · intro flag hflag
    rw [Flags.get_or_fixed, Flags.get_set, Flags.get_clear]
    have hother : flag ≠ .carry := by
      rintro rfl
      exact absurd hflag (by decide)
    have hcleared : flag ∈ cleared := hflag
    simp [hother, hcleared]
  · intro i hi
    rw [BitVec.getLsbD_or, BitVec.getLsbD_or, hagree i hi]

/-! ### Which bit an offset selects -/

/-- The offset of a bit in memory, by the word of the offset operand: a signed number in a register,
and otherwise a number modulo the operand width. -/
def Operand.bitOffset (src : Operand) {w : Width} (raw : BitVec w.bits) : Int :=
  match src with
  | .register _ => raw.toInt
  | _ => (raw.toNat % w.bits : Nat)

namespace Exec

variable {w : Width} {m : Machine} {src : Operand} {raw : BitVec w.bits} {a : Address}

/-- The address of the element in which a bit lies. -/
def elementOf (a : Address) (w : Width) (offset : Int) : Address :=
  a + BitVec.ofInt 64 (offset / w.bits * w.bytes)

/-- The number of a bit in its element. -/
def indexOf (w : Width) (offset : Int) : Nat :=
  (offset % w.bits).toNat

theorem indexOf_lt (w : Width) (offset : Int) : indexOf w offset < w.bits := by
  have hpos : (0 : Int) < w.bits := by cases w <;> decide
  have hlow := Int.emod_nonneg offset (Int.ne_of_gt hpos)
  have hhigh := Int.emod_lt_of_pos offset hpos
  rw [indexOf]
  omega

/-- The byte of an element in which its bit lies is the same for all widths. -/
theorem selected_byte (a : Address) (w : Width) (offset : Int) :
    elementOf a w offset + BitVec.ofNat 64 (indexOf w offset / 8) =
      a + BitVec.ofInt 64 (offset / 8) := by
  have hsum : offset / w.bits * w.bytes + (indexOf w offset / 8 : Nat) = offset / 8 := by
    rw [indexOf]
    cases w <;> simp only [Width.bits, Width.bytes] <;> omega
  rw [elementOf, BitVec.add_assoc, ← BitVec.ofInt_natCast, ← BitVec.ofInt_add, hsum]

theorem selected_bit (w : Width) (offset : Int) :
    indexOf w offset % 8 = (offset % 8).toNat := by
  rw [indexOf]
  cases w <;> simp only [Width.bits, Width.bytes] <;> omega

/-- An offset that is less than the operand width selects a bit of the operand. -/
theorem elementOf_natCast (a : Address) (w : Width) {k : Nat} (hk : k < w.bits) :
    elementOf a w k = a ∧ indexOf w k = k := by
  have hdiv : ((k : Int) / w.bits) = (k / w.bits : Nat) := rfl
  have hmod : ((k : Int) % w.bits) = (k % w.bits : Nat) := rfl
  constructor
  · rw [elementOf, hdiv, Nat.div_eq_of_lt hk, Int.natCast_zero, Int.zero_mul]
    exact BitVec.add_zero a
  · rw [indexOf, hmod, Int.toNat_natCast, Nat.mod_eq_of_lt hk]

/-- A bit in memory is located by its offset. -/
theorem exec_locateBit {o : MemoryOperand} (hraw : Ends (readOperand src w) m raw m)
    (ha : Ends (linear o) m a m) :
    (locateBit (.memory o) src w).exec m =
      (.ok (some (elementOf a w (src.bitOffset raw)), indexOf w (src.bitOffset raw)), m) := by
  have hpos : 0 < w.bits := by cases w <;> decide
  obtain ⟨helement, hindex⟩ := elementOf_natCast a w (Nat.mod_lt raw.toNat hpos)
  rw [locateBit, exec_bind_of_ok hraw]
  cases src with
  | register r => exact exec_bind_of_ok ha _
  | _ =>
    simp only [Operand.bitOffset, helement, hindex]
    exact exec_bind_of_ok ha _

/-- A bit of a register is located by its offset. -/
theorem exec_locateBit_register (r : Register) (hraw : Ends (readOperand src w) m raw m) :
    (locateBit (.register r) src w).exec m = (.ok (none, raw.toNat % w.bits), m) := by
  rw [locateBit, exec_bind_of_ok hraw]
  rfl

/-! ### What the instructions do -/

/-- An operation on a bit of the word at an address is done to that bit in memory, and to the
flags. -/
def Operates (op : BitOp) (a : Address) (w : Width) (k : Nat) (m : Machine) (c : Exec Unit) :
    Prop :=
  ∃ m', c.exec m = (.ok (), m') ∧
    m'.registers = { m.registers with
      rflags := (op.apply m.registers.rflags (m.memory.word a w.bytes) k).2 } ∧
    m.memory.BitReplaced (a + BitVec.ofNat 64 (k / 8)) (k % 8)
      (op.result (m.memory.bit (a + BitVec.ofNat 64 (k / 8)) (k % 8))) m'.memory

section Operates

variable {op : BitOp} {k : Nat} {i : Instruction} {o : MemoryOperand}

/-- To replace a word by the result of an operation is to do the operation to its bit. -/
theorem Replaces.operates {c : Exec Unit} (hc : Replaces a w (fun f old ↦ op.apply f old k) c)
    (hk : k < w.bits) (hread : m.memory.check .read a w.bytes = .ok ())
    (hwrite : m.memory.check .write a w.bytes = .ok ()) : Operates op a w k m c := by
  obtain ⟨m', hexec, hregisters, hspace, hcontents⟩ := hc.replaced hread hwrite
  have hsize : w.bytes ≤ pageSize := by cases w <;> decide
  refine ⟨m', hexec, hregisters, .of_word hread hsize hspace hcontents hk fun j _ ↦ ?_⟩
  rw [← m.memory.getLsbD_word a hk]
  exact op.getLsbD_apply _ _ hk j

/-- Where an operation with a memory destination finds its bit, and the width. -/
structure Locates (i : Instruction) (m : Machine) (a : Address) (w : Width) (k : Nat) : Prop where
  lt : k < w.bits
  located : ∃ o src, i.operands[0]? = some (.memory o) ∧ i.operands[1]? = some src ∧
    (Operand.memory o).width? = some w ∧
    (locateBit (.memory o) src w).exec m = (.ok (some a, k), m)

/-- Without a lock prefix: a test loads the word, and all others store it as well. -/
theorem operates_bit (h : Locates i m a w k) (hread : m.memory.check .read a w.bytes = .ok ())
    (hwrite : op ≠ .test → m.memory.check .write a w.bytes = .ok ()) :
    Operates op a w k m (bit op i) := by
  obtain ⟨o, src, hdst, hsrc, hw, hlocate⟩ := h.located
  by_cases hop : op = .test
  · subst hop
    refine ⟨{ m with registers := { m.registers with
      rflags := (BitOp.test.apply m.registers.rflags (m.memory.word a w.bytes) k).2 } }, ?_, rfl,
      .refl _ _ _⟩
    rw [bit, exec_bind_of_ok (exec_operand hdst m), exec_bind_of_ok (exec_operand hsrc m),
      exec_bind_of_ok (exec_width hw m), exec_bind_of_ok hlocate]
    exact (exec_bind_of_ok (exec_flags m) _).trans (exec_bind_of_ok (exec_load hread) _)
  · have hreplaces : Replaces a w (fun f old ↦ op.apply f old k) _ := replaces_loadThenStore
    obtain ⟨m', hexec, hrest⟩ := hreplaces.operates h.lt hread (hwrite hop)
    refine ⟨m', ?_, hrest⟩
    rw [bit, exec_bind_of_ok (exec_operand hdst m), exec_bind_of_ok (exec_operand hsrc m),
      exec_bind_of_ok (exec_width hw m), exec_bind_of_ok hlocate, ← hexec]
    simp only [ne_eq, hop, not_false_eq_true, if_true]

theorem operates_bitLocked (h : Locates i m a w k)
    (hread : m.memory.check .read a w.bytes = .ok ())
    (hwrite : m.memory.check .write a w.bytes = .ok ()) :
    Operates op a w k m (bitLocked op i) := by
  obtain ⟨o, src, hdst, hsrc, hw, hlocate⟩ := h.located
  obtain ⟨m', hexec, hrest⟩ := replaces_updateLocked.operates h.lt hread hwrite
  refine ⟨m', ?_, hrest⟩
  rw [bitLocked, exec_bind_of_ok (exec_operand hdst m), exec_bind_of_ok (exec_width hw m),
    exec_bind_of_ok (exec_operand hsrc m), exec_bind_of_ok hlocate]
  exact hexec

end Operates

/-- A bit operation on a register: a test leaves the register alone, and all others write it. -/
theorem exec_bit_register (op : BitOp) {i : Instruction} {r : Register}
    (hdst : i.operands[0]? = some (.register r)) (hsrc : i.operands[1]? = some src)
    (hw : (Operand.register r).width? = some w) (hgeneral : r.generalPart?.isSome)
    (hraw : Ends (readOperand src w) m raw m) :
    ∃ (old new : BitVec w.bits) (f : Flags) (after : RegisterFile),
      op.apply m.registers.rflags old (raw.toNat % w.bits) = (new, f) ∧
      Ends (readOperand (.register r) w) m old m ∧
      (op = .test → after = m.registers) ∧
      (op ≠ .test → m.registers.write? r (new.setWidth 64) = some after) ∧
      (bit op i).exec m = (.ok (), { m with registers := { after with rflags := f } }) := by
  obtain ⟨value, hread⟩ := m.registers.exists_read? hgeneral
  have hvalue : (readRegister r).exec m = (.ok value, m) := by
    have hregisters : registers.exec m = (.ok m.registers, m) := rfl
    rw [readRegister, exec_bind_of_ok hregisters, hread]
    rfl
  have hold : Ends (readOperand (.register r) w) m (value.setWidth w.bits) m :=
    exec_bind_of_ok hvalue _
  cases happly : op.apply m.registers.rflags (value.setWidth w.bits) (raw.toNat % w.bits) with
  | mk new f =>
    have hlocate := exec_locateBit_register r hraw
    have hexec : (bit op i).exec m = ((do
        if op ≠ .test then writeRegister r (new.setWidth 64)
        setFlags f) : Exec Unit).exec m := by
      rw [bit, exec_bind_of_ok (exec_operand hdst m), exec_bind_of_ok (exec_operand hsrc m),
        exec_bind_of_ok (exec_width hw m), exec_bind_of_ok hlocate, exec_bind_of_ok hvalue,
        exec_bind_of_ok (exec_flags m), happly]
    by_cases hop : op = .test
    · refine ⟨_, new, f, m.registers, happly, hold, fun _ ↦ rfl, absurd hop, ?_⟩
      rw [hexec]
      simp only [hop, ne_eq, not_true, if_false]
      exact exec_setFlags f m
    · obtain ⟨after, hafter, -⟩ := m.registers.exists_write? hgeneral (new.setWidth 64)
      have hwrite := exec_writeRegister r (new.setWidth 64) m
      rw [hafter] at hwrite
      refine ⟨_, new, f, after, happly, hold, fun h ↦ absurd h hop, fun _ ↦ hafter, ?_⟩
      rw [hexec]
      simp only [hop, ne_eq, not_false_eq_true, if_true]
      exact exec_bind_of_ok hwrite _

end Exec

namespace Machine

open Exec

variable {m : Machine} {i : Instruction} {op : BitOp}

/-- An instruction completes with these registers, behind itself, and with the flags after an
operation on this bit. -/
def CompletesAfterBit (m : Machine) (i : Instruction) (r : RegisterFile) (bit : Bool) : Prop :=
  ∃ f, (m.execute i).1.map Completion.registers = .ok { r with rip := i.next, rflags := f } ∧
    m.registers.flags.AfterBit bit f

theorem completesAfterBit_of_exec (op : BitOp) {c : Exec Unit} {m' : Machine} {r : RegisterFile}
    {n : Nat} {word : BitVec n} {k : Nat} (heffect : i.effect = .ok (do c; return .next))
    (hexec : c.exec m = (.ok (), m'))
    (hregisters : m'.registers = { r with rflags := (op.apply m.registers.rflags word k).2 }) :
    m.CompletesAfterBit i r (word.getLsbD k) := by
  have hcomplete : (m'.complete i .next).registers =
      { m'.registers with rip := i.next, rflags := m'.registers.flags } := rfl
  refine ⟨_, ?_, op.after_apply m.registers.rflags word k⟩
  rw [execute_of_effect heffect, hexec]
  change Except.ok (m'.complete i .next).registers = _
  rw [hcomplete, hregisters]
  rfl

/-- An instruction does an operation to a bit of memory: it completes with the flags of the
operation and all other registers as they were, and memory differs in that bit at most. -/
structure ChangesBit (m : Machine) (i : Instruction) (op : BitOp) (a : Address) (index : Nat) :
    Prop where
  completes : m.CompletesAfterBit i m.registers (m.memory.bit a index)
  memory : m.memory.BitReplaced a index (op.result (m.memory.bit a index)) (m.execute i).2

/-- An instruction does an operation to a bit of a register: only that bit of its value changes, the
changed value is written except by a test, and memory is left alone. -/
structure ChangesRegisterBit (m : Machine) (i : Instruction) (op : BitOp) (r : Register) (w : Width)
    (k : Nat) : Prop where
  completes : ∃ (old new : BitVec w.bits) (after : RegisterFile),
    Ends (readOperand (.register r) w) m old m ∧
    (∀ j, new.getLsbD j = if j = k then op.result (old.getLsbD k) else old.getLsbD j) ∧
    (op = .test → after = m.registers) ∧
    (op ≠ .test → m.registers.write? r (new.setWidth 64) = some after) ∧
    m.CompletesAfterBit i after (old.getLsbD k)
  memory : (m.execute i).2 = m.memory

theorem changesBit_of_operates {a : Address} {w : Width} {k : Nat} {c : Exec Unit}
    (heffect : i.effect = .ok (do c; return .next)) (hk : k < w.bits)
    (h : Operates op a w k m c) :
    m.ChangesBit i op (a + BitVec.ofNat 64 (k / 8)) (k % 8) := by
  obtain ⟨m', hexec, hregisters, hmemory⟩ := h
  constructor
  · rw [← m.memory.getLsbD_word a hk]
    exact completesAfterBit_of_exec op heffect hexec hregisters
  · rw [execute_of_effect heffect, hexec]
    exact hmemory

theorem effect_bit (hmnemonic : i.mnemonic = .bit op) (hlock : i.prefixes.lock = false) :
    i.effect = .ok (do bit op i; return .next) := by
  refine Instruction.effect_of_straight hlock ?_
  rw [hmnemonic]
  rfl

theorem effect_bitLocked (hmnemonic : i.mnemonic = .bit op) (hlock : i.prefixes.lock = true)
    (hop : op ≠ .test) {o : MemoryOperand} (hdst : i.operands[0]? = some (.memory o)) :
    i.effect = .ok (do bitLocked op i; return .next) := by
  have hlockable : i.mnemonic.isLockable = true := by
    rw [hmnemonic]
    exact bne_iff_ne.mpr hop
  have hmemory : i.hasMemoryDestination = true := by
    rw [Instruction.hasMemoryDestination, List.head?_eq_getElem?, hdst]
  have hlocked : locked i = bitLocked op i := by
    unfold locked
    rw [hmnemonic]
  rw [Instruction.effect, hlock, hlockable, hmemory, ← hlocked]
  rfl

/-- A bit operation on memory that may read and write its element, with a lock prefix or without. -/
theorem changesBit {a : Address} {w : Width} {k : Nat} (hmnemonic : i.mnemonic = .bit op)
    (h : Locates i m a w k) (hlock : i.prefixes.lock = true → op ≠ .test)
    (hread : m.memory.check .read a w.bytes = .ok ())
    (hwrite : op ≠ .test → m.memory.check .write a w.bytes = .ok ()) :
    m.ChangesBit i op (a + BitVec.ofNat 64 (k / 8)) (k % 8) := by
  cases hprefix : i.prefixes.lock with
  | false =>
    exact changesBit_of_operates (effect_bit hmnemonic hprefix) h.lt (operates_bit h hread hwrite)
  | true =>
    have hop := hlock hprefix
    obtain ⟨o, _, hdst, _⟩ := h.located
    exact changesBit_of_operates (effect_bitLocked hmnemonic hprefix hop hdst) h.lt
      (operates_bitLocked h hread (hwrite hop))

/-- A bit operation on a register takes the offset modulo the operand width. -/
theorem changesRegisterBit {w : Width} {r : Register} {src : Operand} {raw : BitVec w.bits}
    (hmnemonic : i.mnemonic = .bit op) (hlock : i.prefixes.lock = false)
    (hdst : i.operands[0]? = some (.register r)) (hsrc : i.operands[1]? = some src)
    (hw : (Operand.register r).width? = some w) (hgeneral : r.generalPart?.isSome)
    (hraw : Ends (readOperand src w) m raw m) :
    m.ChangesRegisterBit i op r w (raw.toNat % w.bits) := by
  have hlt : raw.toNat % w.bits < w.bits := Nat.mod_lt _ (by cases w <;> decide)
  have heffect := effect_bit hmnemonic hlock
  obtain ⟨old, new, f, after, happly, hold, htest, hother, hexec⟩ :=
    exec_bit_register op hdst hsrc hw hgeneral hraw
  constructor
  · refine ⟨old, new, after, hold, fun j ↦ ?_, htest, hother, ?_⟩
    · rw [← op.getLsbD_apply m.registers.rflags old hlt j, happly]
    · refine completesAfterBit_of_exec op heffect hexec ?_
      rw [happly]
  · rw [execute_of_effect heffect, hexec]

/-- Tests and changes of a bit. Of a memory operand at `a`, the offset `o` selects bit `o % 8` of
the byte at `a + o / 8`, rounded toward lower addresses and modulo `2 ^ 64`, if the element of the
operand width in which it lies may be read, and written by all but a test. The offset is signed in a
register, and otherwise taken modulo the operand width. This is so with a lock prefix as well, which
a test does not take. Of a register the bit is selected modulo the operand width. -/
theorem execute_bit {w : Width} {src : Operand} {raw : BitVec w.bits}
    (hmnemonic : i.mnemonic = .bit op) (hsrc : i.operands[1]? = some src)
    (hraw : Ends (readOperand src w) m raw m) :
    (∀ (o : MemoryOperand) (a : Address), i.operands[0]? = some (.memory o) →
      (Operand.memory o).width? = some w → Ends (linear o) m a m →
      (i.prefixes.lock = true → op ≠ .test) →
      m.memory.check .read (elementOf a w (src.bitOffset raw)) w.bytes = .ok () →
      (op ≠ .test →
        m.memory.check .write (elementOf a w (src.bitOffset raw)) w.bytes = .ok ()) →
      m.ChangesBit i op (a + BitVec.ofInt 64 (src.bitOffset raw / 8))
        (src.bitOffset raw % 8).toNat) ∧
    (∀ r : Register, i.operands[0]? = some (.register r) →
      (Operand.register r).width? = some w → r.generalPart?.isSome → i.prefixes.lock = false →
      m.ChangesRegisterBit i op r w (raw.toNat % w.bits)) := by
  constructor
  · intro o a hdst hw ha hlock hread hwrite
    rw [← selected_byte a w, ← selected_bit w]
    exact changesBit hmnemonic
      ⟨indexOf_lt w _, o, src, hdst, hsrc, hw, exec_locateBit hraw ha⟩ hlock hread hwrite
  · intro r hdst hw hgeneral hlock
    exact changesRegisterBit hmnemonic hlock hdst hsrc hw hgeneral hraw

/-- An operation on a bit of a double word, with the offset in ESI. -/
def byIndex (op : BitOp) (dst : Operand) (lock : Bool) : Instruction where
  mnemonic := .bit op
  operands := [dst, .register (.general .dword Register.rsi)]
  prefixes := { lock }
  address := 0x1000
  length := if lock then 9 else 8
  flow := .next
  stackIncrement := 0
  elementSize := 4
  narrowAddress := false

/-- The bit before an operand: its element lies on two pages, which are one frame, and the byte is
seen at the other page as well. Of a register the offset minus one selects the last bit. -/
theorem execute_bit_aliasedMachine :
    let m := aliasedMachine (-1) 0 0 Flags.initial
    let operand := Operand.memory { displacement := 0x3002, size := 4 }
    m.ChangesBit (byIndex .set operand true) .set 0x3001 7 ∧
      (m.execute (byIndex .set operand true)).2.byte 0x2001 = 0x82 ∧
      m.ChangesBit (byIndex .test operand false) .test 0x3001 7 ∧
      m.ChangesRegisterBit (byIndex .complement (.register (.general .dword Register.rdi)) false)
        .complement (.general .dword Register.rdi) .dword 31 := by
  intro m operand
  have hvalue : (m.registers.get Register.rsi).setWidth Width.dword.bits = -1 := by decide +kernel
  have hraw := ends_readOperand_general .dword m Register.rsi
  rw [hvalue] at hraw
  have ha : Ends (linear { displacement := 0x3002, size := 4 }) m 0x3002 m := by
    rw [Ends]
    rfl
  refine ⟨?_, by decide +kernel, ?_, ?_⟩
  · exact (execute_bit (i := byIndex .set operand true) rfl rfl hraw).1 _ 0x3002 rfl rfl ha
      (fun _ ↦ by decide) (by decide +kernel) (fun _ ↦ by decide +kernel)
  · exact (execute_bit (i := byIndex .test operand false) rfl rfl hraw).1 _ 0x3002 rfl rfl ha
      (fun h ↦ nomatch h) (by decide +kernel) (fun h ↦ absurd rfl h)
  · exact (execute_bit (i := byIndex .complement (.register (.general .dword Register.rdi)) false)
      rfl rfl hraw).2 _ rfl rfl rfl rfl

end Machine

end LongMode
