import LongMode.Proofs.Decode.Maps
import LongMode.Proofs.Decode.Destinations
import LongMode.Proofs.Decode.Truncation

/-!
The encodings of the instructions of control in 64-bit code. `controlForm?` reads off the bytes of
an encoding what they ask for, prefixes and all. The decoder and it agree on the form up to what the
machine carries out in its place (`exists_controlForm`).
-/

set_option autoImplicit false
set_option relaxedAutoImplicit false

namespace LongMode

open Decode

/-! ### Forms by their bytes -/

namespace ControlForm

/-- The width of the counter under prefixes, which is the width of addresses. -/
def counterWidth (prefixes : List UInt8) : Width :=
  if prefixes.contains 0x67 then .dword else .qword

/-- The width of a saved frame pointer under prefixes. -/
def frameWidth (prefixes : List UInt8) : Width :=
  if prefixes.contains 0x66 && !(rexOf prefixes).w then .word else .qword

/-- The form of opcode FF by the `reg` field of its ModRM byte. Fields 3 and 5 are the far ones. -/
def ofGroup? (reg : Nat) (goal : Destination) : Option ControlForm :=
  match reg with
  | 2 => some (.call goal)
  | 3 => some (.farCall goal)
  | 4 => some (.jump goal)
  | 5 => some (.farJump goal)
  | _ => none

/-- The form of an opcode byte behind prefixes and in front of further bytes, in an instruction that
ends at `next`. -/
def ofOpcode? (next : Address) (prefixes : List UInt8) (op : UInt8) (rest : List UInt8) :
    Option ControlForm :=
  match op.toNat with
  | 0xc2 => some (.ret (BitVec.ofNat 64 (LittleEndian.toNat rest)))
  | 0xc3 => some (.ret 0)
  | 0xc9 => some (.leave (frameWidth prefixes))
  | 0xe0 => some (.loop .whileNotEqual (counterWidth prefixes) (Reader.signExtended rest))
  | 0xe1 => some (.loop .whileEqual (counterWidth prefixes) (Reader.signExtended rest))
  | 0xe2 => some (.loop .always (counterWidth prefixes) (Reader.signExtended rest))
  | 0xe3 => some (.jumpIfZero (counterWidth prefixes) (Reader.signExtended rest))
  | 0xe8 => some (.call (.relative (Reader.signExtended rest)))
  | 0xe9 | 0xeb => some (.jump (.relative (Reader.signExtended rest)))
  | 0xff => do
    let m := ModRm.ofByte (← rest.head?).toNat
    ofGroup? m.reg (← Destination.ofBytes? prefixes next m rest.tail)
  | _ => none

end ControlForm

/-- The form of an instruction of control of 64-bit code by the bytes of its encoding, and by where
it ends. -/
def controlForm? (next : Address) (code : List UInt8) : Option ControlForm :=
  match code.dropWhile isPrefix with
  | op :: rest => ControlForm.ofOpcode? next (code.takeWhile isPrefix) op rest
  | [] => none

theorem controlForm?_append (next : Address) {prefixes : List UInt8}
    (hprefixes : prefixes.all isPrefix) {op : UInt8} (hop : isPrefix op = false)
    (rest : List UInt8) :
    controlForm? next (prefixes ++ op :: rest) = ControlForm.ofOpcode? next prefixes op rest := by
  have hall := List.all_eq_true.mp hprefixes
  rw [controlForm?, List.dropWhile_append_of_pos hall, List.takeWhile_append_of_pos hall,
    List.dropWhile_cons_of_neg (by simp [hop]), List.takeWhile_cons_of_neg (by simp [hop]),
    List.append_nil]

namespace Decode

open Reader

variable {c : Context}

/-! ### Instructions of control -/

/-- An opcode behind prefixes asks for a form, and an instruction carries what is carried out in
place of it. -/
def Answers (i : Instruction) (prefixes : List UInt8) (op : UInt8) (rest : List UInt8) : Prop :=
  i.prefixes.lock = false ∧ ∃ form,
    ControlForm.ofOpcode? i.next prefixes op rest = some form ∧ i.Carries form.executed

section Answers

variable {prefixes rest : List UInt8} {op : UInt8} {ofLength : Nat → Instruction} {n : Nat}

theorem answers_countedLoop (h64 : c.is64) {kind : LoopKind}
    (hop : ∀ next, ControlForm.ofOpcode? next prefixes op rest =
      some (.loop kind (ControlForm.counterWidth prefixes) (signExtended rest)))
    (h : ((Opcode.countedBranch (.loop kind)).read c op.toNat none).Takes rest ofLength) :
    Answers (ofLength n) prefixes op rest := by
  obtain ⟨hmnemonic, hlock, hgoal⟩ := Spec.targets_of_takes h64 rfl rfl (.inl rfl) h n
  exact ⟨hlock, _, hop _, .loop hmnemonic hgoal⟩

theorem answers_counterZero (h64 : c.is64) (hs : c.prefixes.Follows prefixes)
    (h : ((Opcode.countedBranch (Opcode.counterZero c)).read c 0xe3 none).Takes rest ofLength) :
    Answers (ofLength n) prefixes 0xe3 rest := by
  obtain ⟨hmnemonic, hlock, hgoal⟩ := Spec.targets_of_takes h64 rfl rfl (.inl rfl) h n
  have hwidth : Opcode.counterZero c = .jumpIfCounterZero (!prefixes.contains 0x67) ∧
      ControlForm.counterWidth prefixes = if !prefixes.contains 0x67 then .qword else .dword := by
    rw [Opcode.counterZero, Context.addressSize_eq h64, hs.addressSize, ControlForm.counterWidth]
    cases prefixes.contains 0x67 with
    | false => exact ⟨rfl, rfl⟩
    | true => exact ⟨rfl, rfl⟩
  refine ⟨hlock, .jumpIfZero (ControlForm.counterWidth prefixes) (signExtended rest), rfl, ?_⟩
  rw [hwidth.2]
  exact .jumpIfZero (hmnemonic.trans hwidth.1) hgoal

theorem answers_call (h64 : c.is64)
    (h : ((Opcode.rowE c 0xe8).read c 0xe8 none).Takes rest ofLength) :
    Answers (ofLength n) prefixes 0xe8 rest := by
  obtain ⟨hmnemonic, hlock, hgoal⟩ := Spec.targets_of_takes h64 rfl rfl (.inr rfl) h n
  exact ⟨hlock, _, rfl, .call hmnemonic hgoal⟩

theorem answers_jump (h64 : c.is64) {form : Form} (hform : form = .branch8 ∨ form = .branch)
    (hop : op = 0xe9 ∨ op = 0xeb)
    (h : ((Opcode.jumpEntry form).read c op.toNat none).Takes rest ofLength) :
    Answers (ofLength n) prefixes op rest := by
  have hforms : [form] = [.branch8] ∨ [form] = [.branch] := by simpa using hform
  obtain ⟨hmnemonic, hlock, hgoal⟩ := Spec.targets_of_takes h64 rfl rfl hforms h n
  refine ⟨hlock, .jump (.relative (signExtended rest)), ?_, .jump hmnemonic hgoal⟩
  obtain rfl | rfl := hop
  · rfl
  · rfl

theorem answers_ret {stack : StackEffect}
    (h : ((Opcode.nearReturn [] stack).read c 0xc3 none).Takes rest ofLength) :
    Answers (ofLength n) prefixes 0xc3 rest := by
  obtain ⟨drafts, hdrafts, hofLength⟩ := Spec.exists_of_takes rfl h
  obtain ⟨hmnemonic, hlock, hoperands⟩ := hofLength n
  obtain ⟨_, rfl⟩ := takes_pure.mp hdrafts
  exact ⟨hlock, .ret 0, rfl, .ret hmnemonic hoperands⟩

theorem answers_retRelease {stack : StackEffect}
    (h : ((Opcode.nearReturn [.imm16] stack).read c 0xc2 none).Takes rest ofLength) :
    Answers (ofLength n) prefixes 0xc2 rest := by
  obtain ⟨drafts, hdrafts, hofLength⟩ := Spec.exists_of_takes rfl h
  obtain ⟨hmnemonic, hlock, hoperands⟩ := hofLength n
  obtain ⟨draft, hdraft, rfl⟩ := Encoding.takes_readAll_single hdrafts
  obtain ⟨_, hnumber, rfl⟩ := takes_map.mp hdraft
  obtain ⟨hlength, rfl⟩ := takes_number.mp hnumber
  have hwide : BitVec.ofNat 64 (LittleEndian.toNat rest) =
      (BitVec.ofNat 16 (LittleEndian.toNat rest)).setWidth 64 := by
    have hlt := LittleEndian.toNat_lt rest
    rw [hlength] at hlt
    refine BitVec.eq_of_toNat_eq ?_
    rw [BitVec.toNat_setWidth, BitVec.toNat_ofNat, BitVec.toNat_ofNat, Nat.mod_eq_of_lt hlt]
  refine ⟨hlock, .ret (BitVec.ofNat 64 (LittleEndian.toNat rest)), rfl, ?_⟩
  rw [hwide] at hoperands ⊢
  exact .retRelease hmnemonic hoperands

theorem answers_leave (h : ((Opcode.rowC c 0xc9).read c 0xc9 none).Takes rest ofLength) :
    Answers (ofLength n) prefixes 0xc9 rest := by
  obtain ⟨_, _, hofLength⟩ := Spec.exists_of_takes rfl h
  obtain ⟨hmnemonic, hlock, _⟩ := hofLength n
  exact ⟨hlock, .leave (ControlForm.frameWidth prefixes), rfl, .leave hmnemonic⟩

/-- The indirect calls and branches of the fifth group, near and far. -/
theorem indirectGroup_cases {m : ModRm} {s : Spec} (h : Opcode.indirectGroup c m = some s)
    (hcontrol : s.mnemonic.isControl) :
    s.lockable = false ∧ s.anyMod = false ∧ ∃ form, s.forms = [form] ∧
      (form = .rm .operand ∧ s.size = .branch ∨ ∃ size, form = .memory size) ∧
      ((m.reg = 2 ∨ m.reg = 3) ∧ s.mnemonic = .call ∨
        (m.reg = 4 ∨ m.reg = 5) ∧ s.mnemonic = .jmp) := by
  unfold Opcode.indirectGroup at h
  dsimp only at h
  split at h
  case h_1 hreg =>
    cases h
    exact ⟨rfl, rfl, _, rfl, .inl ⟨rfl, rfl⟩, .inl ⟨.inl hreg, rfl⟩⟩
  case h_2 hreg =>
    split at h
    next =>
      cases h
      exact ⟨rfl, rfl, _, rfl, .inr ⟨_, rfl⟩, .inl ⟨.inr hreg, rfl⟩⟩
    next => cases h
  case h_3 hreg =>
    cases h
    exact ⟨rfl, rfl, _, rfl, .inl ⟨rfl, rfl⟩, .inr ⟨.inl hreg, rfl⟩⟩
  case h_4 hreg =>
    split at h
    next =>
      cases h
      exact ⟨rfl, rfl, _, rfl, .inr ⟨_, rfl⟩, .inr ⟨.inr hreg, rfl⟩⟩
    next => cases h
  case h_5 =>
    cases h
    cases hcontrol
  case h_6 =>
    have horderly : Orderly False s.mnemonic s.forms := Opcode.orderly_stepSpec _ m s h
    exact (horderly.1 hcontrol).elim

/-- An indirect call or branch carries the near one, also where the field is one for the far one. -/
theorem exists_ofGroup? {i : Instruction} {reg : Nat} {goal : Destination}
    (hreg : (reg = 2 ∨ reg = 3) ∧ i.mnemonic = .call ∨ (reg = 4 ∨ reg = 5) ∧ i.mnemonic = .jmp)
    (hgoal : i.Targets goal) :
    ∃ form, ControlForm.ofGroup? reg goal = some form ∧ i.Carries form.executed := by
  obtain ⟨rfl | rfl, hm⟩ | ⟨rfl | rfl, hm⟩ := hreg
  · exact ⟨_, rfl, .call hm hgoal⟩
  · exact ⟨_, rfl, .call hm hgoal⟩
  · exact ⟨_, rfl, .jump hm hgoal⟩
  · exact ⟨_, rfl, .jump hm hgoal⟩

theorem answers_indirect (h64 : c.is64) (hs : c.prefixes.Follows prefixes)
    (h : ((Entry.modRm (Opcode.indirectGroup c)).read c 0xff none).Takes rest ofLength)
    (hcontrol : (ofLength n).mnemonic.isControl) : Answers (ofLength n) prefixes 0xff rest := by
  obtain ⟨front, back, number, rfl, hnext, hselect⟩ := takes_bind.mp h
  obtain ⟨b, rfl, rfl⟩ := takes_next.mp hnext
  dsimp only at hselect
  cases hfound : Opcode.indirectGroup c (ModRm.ofByte b.toNat) with
  | none =>
    rw [hfound] at hselect
    exact hselect.elim
  | some s =>
    rw [hfound] at hselect
    obtain ⟨front, back, place, rfl, hplace, hread⟩ := takes_bind.mp hselect
    have hmnemonic := (s.all_read_mnemonic c 0xff _).takes hread n
    rw [hmnemonic] at hcontrol
    obtain ⟨hlockable, hany, form, hforms, hform, hreg⟩ := indirectGroup_cases hfound hcontrol
    rw [hany, if_neg Bool.false_ne_true] at hplace
    obtain ⟨-, hlock, rfl, goal, hbytes, hgoal⟩ :=
      Spec.targets_of_place h64 hs hlockable hforms hform hplace hread n
    rw [← hmnemonic] at hreg
    obtain ⟨asked, hasked, hcarries⟩ := exists_ofGroup? hreg hgoal
    refine ⟨hlock, asked, ?_, hcarries⟩
    rw [List.append_nil]
    exact Option.bind_eq_some_iff.mpr ⟨goal, hbytes, hasked⟩

theorem takes_readEntry {opcode : Nat} {entry : Entry} {modRmByte : Option Nat}
    (h : (readEntry c opcode entry modRmByte).Takes rest (.instruction ofLength)) :
    (entry.read c opcode modRmByte).Takes rest ofLength := by
  obtain ⟨_, hread, heq⟩ := takes_map.mp h
  cases heq
  exact hread

/-- An instruction of control is one of the encodings that ask for a form. -/
theorem answers_of_takes (h64 : c.is64) (hs : c.prefixes.Follows prefixes)
    (h : (readOpcode c op.toNat).Takes rest (.instruction ofLength))
    (hcontrol : (ofLength n).mnemonic.isControl) : Answers (ofLength n) prefixes op rest := by
  have hop : op.toNat ∈ Opcode.controlOpcodes :=
    (all_readOpcode_control c op.toNat).takes h n hcontrol h64
  have hop : op.toNat ∈ ([0xc2, 0xc3, 0xc9, 0xe0, 0xe1, 0xe2, 0xe3, 0xe8, 0xe9, 0xeb, 0xff] :
      List UInt8).map UInt8.toNat := hop
  obtain ⟨code, hcode, heq⟩ := List.mem_map.mp hop
  obtain rfl := UInt8.toNat_inj.mp heq
  simp only [List.mem_cons, List.not_mem_nil, or_false] at hcode
  obtain rfl | rfl | rfl | rfl | rfl | rfl | rfl | rfl | rfl | rfl | rfl := hcode
  · exact answers_retRelease (takes_readEntry h)
  · exact answers_ret (takes_readEntry h)
  · exact answers_leave (takes_readEntry h)
  · exact answers_countedLoop h64 (fun _ ↦ rfl) (takes_readEntry h)
  · exact answers_countedLoop h64 (fun _ ↦ rfl) (takes_readEntry h)
  · exact answers_countedLoop h64 (fun _ ↦ rfl) (takes_readEntry h)
  · exact answers_counterZero h64 hs (takes_readEntry h)
  · exact answers_call h64 (takes_readEntry h)
  · exact answers_jump h64 (.inr rfl) (.inl rfl) (takes_readEntry h)
  · exact answers_jump h64 (.inl rfl) (.inr rfl) (takes_readEntry h)
  · exact answers_indirect h64 hs (takes_readEntry h) hcontrol

end Answers

end Decode

/-- An instruction of control carries what is carried out in place of the form that its encoding
asks for. -/
theorem exists_controlForm {a : Address} {e : List UInt8} {i : Instruction}
    (h : decode .bits64 a e = .ok i) (hlength : i.length = e.length)
    (hcontrol : i.mnemonic.isControl) :
    ∃ form, controlForm? i.next e = some form ∧ i.Carries form.executed ∧
      i.prefixes.lock = false := by
  obtain ⟨hmax, _, hencoding⟩ := attempt_of_encoding h hlength
  obtain ⟨ofLength, length, hattempt, rfl⟩ := attempt_of_decode h
  rw [List.take_of_length_le hmax] at hattempt
  have htakes := Reader.takes_of_run hattempt
  have hall : e.take (length - 0) = e := by
    rw [hencoding, Reader.Outcome.complete.injEq] at hattempt
    rw [← hattempt.2, Nat.sub_zero, List.take_length]
  rw [hall] at htakes
  obtain ⟨front, rest, ⟨s, op⟩, rfl, hprefixes, hrest⟩ := Reader.takes_bind.mp htakes
  obtain ⟨prefixes, op, rfl, rfl, hprefixes, hop, hs⟩ :=
    PrefixState.exists_of_takes PrefixState.follows_nil hprefixes
  obtain ⟨hlock, form, hform, hcarries⟩ := answers_of_takes rfl hs hrest hcontrol
  refine ⟨form, ?_, hcarries, hlock⟩
  rw [List.append_assoc, List.singleton_append, controlForm?_append _ hprefixes hop]
  exact hform

end LongMode
