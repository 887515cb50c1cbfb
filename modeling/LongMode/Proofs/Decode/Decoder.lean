import LongMode.Proofs.Decode.Maps
import LongMode.Register.File

/-!
What is known of a decoded instruction without looking at its bytes: it has an address and a length
as they were found, and if it is an exchange then it trades general registers or memory
(`Instruction.IsRead`). A successful decode consumes at least one byte and at most fifteen, and
depends on the bytes it consumed only (`decode_eq_of_take_eq`).
-/

set_option autoImplicit false
set_option relaxedAutoImplicit false

namespace LongMode

/-- If the operand is a register, then it is a general one. -/
def Operand.IsGeneral (o : Operand) : Prop :=
  ∀ r, o = .register r → r.generalPart?.isSome

/-- If both operands are written, then those that are registers are general ones. -/
def Instruction.TradesGeneral (i : Instruction) : Prop :=
  i.mnemonic = .xchg ∨ i.mnemonic = .xadd → ∀ o ∈ i.operands, o.IsGeneral

/-- An instruction as it is read from `length` bytes at an address. -/
structure Instruction.IsRead (i : Instruction) (a : Address) (length : Nat) : Prop where
  address : i.address = a
  length_eq : i.length = length
  tradesGeneral : i.TradesGeneral

namespace Decode

open Reader

/-! ### Operands -/

namespace Encoding

theorem isSome_generalPart?_general (e : Encoding) (width : Width) (n : Nat) :
    (e.general width n).generalPart?.isSome := by
  rw [general]
  split
  · rfl
  · rfl

theorem isGeneral_atPlace (e : Encoding) (bytes : Nat) (width : Width) (next : Address) :
    (e.atPlace bytes (e.general width) next).IsGeneral := by
  intro r hr
  unfold atPlace at hr
  split at hr
  · rw [← Operand.register.inj hr]
    exact e.isSome_generalPart?_general width _
  · split at hr
    · exact nomatch hr
    · exact nomatch hr
  · exact nomatch hr

/-- A general form is read into general registers or memory. -/
theorem all_read_of_isGeneral (e : Encoding) {form : Form} (h : form.isGeneral) :
    (e.read form).All fun draft ↦ ∀ next, (draft next).IsGeneral := by
  cases form with
  | rm width => exact fun next ↦ e.isGeneral_atPlace _ _ next
  | rmOr width bytes => exact fun next ↦ e.isGeneral_atPlace _ _ next
  | reg width =>
    intro next r hr
    rw [← Operand.register.inj hr]
    exact e.isSome_generalPart?_general _ _
  | opcodeReg width =>
    intro next r hr
    rw [← Operand.register.inj hr]
    exact e.isSome_generalPart?_general _ _
  | accumulator width =>
    intro next r hr
    rw [← Operand.register.inj hr]
    rfl
  | _ => exact nomatch h

theorem all_readAll_of_isGeneral (e : Encoding) (forms : List Form)
    (h : ∀ form ∈ forms, form.isGeneral) :
    (e.readAll forms).All fun drafts ↦ ∀ draft ∈ drafts, ∀ next, (draft next).IsGeneral := by
  induction forms with
  | nil => exact fun draft hdraft ↦ absurd hdraft List.not_mem_nil
  | cons form rest ih =>
    refine (e.all_read_of_isGeneral (h form List.mem_cons_self)).bind fun draft hdraft ↦ ?_
    refine (ih fun form hform ↦ h form (List.mem_cons_of_mem _ hform)).bind fun drafts hdrafts ↦ ?_
    intro draft' hmem
    rcases List.mem_cons.mp hmem with rfl | hrest
    · exact hdraft
    · exact hdrafts draft' hrest

end Encoding

/-! ### Instructions -/

/-- What a reader finds at an address, whatever its length turns out to be. -/
def Finding.IsRead (a : Address) : Finding → Prop
  | .instruction ofLength => ∀ n, (ofLength n).IsRead a n
  | .extended => True

theorem Spec.all_read {s : Spec}
    (h : s.mnemonic = .xchg ∨ s.mnemonic = .xadd → ∀ form ∈ s.forms, form.isGeneral) (c : Context)
    (opcode : Nat) (place : Option (ModRm × Place)) :
    (s.read c opcode place).All fun ofLength ↦ ∀ n, (ofLength n).IsRead c.address n := by
  have hforms : (Encoding.readAll ⟨c, opcode, c.operandSize s.size, place⟩ s.forms).All
      fun drafts ↦ s.mnemonic = .xchg ∨ s.mnemonic = .xadd →
        ∀ draft ∈ drafts, ∀ next, (draft next).IsGeneral := by
    by_cases hexchange : s.mnemonic = .xchg ∨ s.mnemonic = .xadd
    · exact (Encoding.all_readAll_of_isGeneral _ s.forms (h hexchange)).mono fun _ hv _ ↦ hv
    · exact (All.trivial _).mono fun _ _ hexchange' ↦ absurd hexchange' hexchange
  refine hforms.bind fun drafts hdrafts ↦ ?_
  split
  · exact True.intro
  · refine fun n ↦ ⟨rfl, rfl, fun hexchange o ho ↦ ?_⟩
    obtain ⟨draft, hdraft, rfl⟩ := List.mem_map.mp ho
    exact hdrafts hexchange draft hdraft _

theorem all_readOpcode (c : Context) (op : Nat) :
    (readOpcode c op).All (Finding.IsRead c.address) :=
  all_readOpcode_of_orderly True.intro fun _ hs opcode place ↦ Spec.all_read hs.2 c opcode place

theorem all_reader (mode : Mode) (a : Address) : (reader mode a).All (Finding.IsRead a) :=
  .after _ fun (prefixes, op) ↦ all_readOpcode ⟨mode, a, prefixes⟩ op

/-- An instruction is not found before its first byte is read. -/
theorem one_le_of_attempt {mode : Mode} {a : Address} {window : List UInt8} {finding : Finding}
    {length : Nat} (h : attempt mode a window = .complete finding length) : 1 ≤ length := by
  cases window with
  | nil => exact nomatch h
  | cons b bs =>
    have hbounds : 1 ≤ length ∧ length ≤ 1 + bs.length := length_of_run h
    exact hbounds.1

end Decode

variable {mode : Mode} {a : Address} {window : List UInt8} {i : Instruction}

/-- A successful decode is a successful attempt on the first fifteen bytes. -/
theorem attempt_of_decode (h : decode mode a window = .ok i) :
    ∃ ofLength length, Decode.attempt mode a (window.take Decode.maxLength) =
      .complete (.instruction ofLength) length ∧ ofLength length = i := by
  rw [decode] at h
  split at h
  · exact nomatch h
  · split at h
    · rename_i ofLength length hattempt
      exact ⟨ofLength, length, hattempt, Except.ok.inj h⟩
    · exact nomatch h
    · exact nomatch h
    · exact nomatch h

theorem isRead_of_decode (h : decode mode a window = .ok i) : i.IsRead a i.length := by
  obtain ⟨ofLength, length, hattempt, rfl⟩ := attempt_of_decode h
  have hread := (Decode.all_reader mode a).run hattempt length
  exact ⟨hread.address, rfl, hread.tradesGeneral⟩

/-- The length of a decoded instruction is the number of bytes that were consumed. -/
theorem length_of_decode (h : decode mode a window = .ok i) :
    1 ≤ i.length ∧ i.length ≤ Decode.maxLength ∧ i.length ≤ window.length := by
  obtain ⟨ofLength, length, hattempt, rfl⟩ := attempt_of_decode h
  have hlength : (ofLength length).length = length :=
    ((Decode.all_reader mode a).run hattempt length).length_eq
  have hle := (Reader.length_of_run hattempt).2
  have hone := Decode.one_le_of_attempt hattempt
  rw [List.length_take] at hle
  omega

/-- A decode of a window succeeds in the same way on every window that begins with the bytes of the
instruction. -/
theorem decode_eq_of_take_eq (h : decode mode a window = .ok i) {window' : List UInt8}
    (hsame : window'.take i.length = window.take i.length) : decode mode a window' = .ok i := by
  obtain ⟨hone, hmax, hwindow⟩ := length_of_decode h
  obtain ⟨ofLength, length, hattempt, rfl⟩ := attempt_of_decode h
  have hlength : (ofLength length).length = length :=
    ((Decode.all_reader mode a).run hattempt length).length_eq
  rw [hlength] at hone hmax hwindow hsame
  have hattempt' : Decode.attempt mode a (window'.take Decode.maxLength) =
      .complete (.instruction ofLength) length := by
    refine Reader.run_eq_of_take_eq hattempt ?_
    rw [Nat.sub_zero, List.take_take, List.take_take, Nat.min_eq_left hmax, hsame]
  have hne : (window'.take Decode.maxLength).isEmpty = false := by
    have hle := (Reader.length_of_run hattempt').2
    cases hwindow' : window'.take Decode.maxLength with
    | nil =>
      rw [hwindow', List.length_nil] at hle
      omega
    | cons b bs => rfl
  rw [decode]
  simp only [hne, Bool.false_eq_true, if_false, hattempt']

end LongMode
