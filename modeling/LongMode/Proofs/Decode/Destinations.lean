import LongMode.Proofs.Decode.Grammar
import LongMode.Proofs.Machine.Control

/-!
Where the branches and calls of 64-bit code go, by the bytes of their encodings. A relative one has
its distance in the encoding (`Spec.targets_of_takes`). An indirect one has a ModRM byte, which
stands for a register or, with the bytes behind it and the prefixes, for a place in memory
(`Destination.ofBytes?`); the operand that the decoder makes of them stands for the same
(`Decode.Spec.targets_of_place`).
-/

set_option autoImplicit false
set_option relaxedAutoImplicit false

namespace LongMode

open Decode

/-! ### Destinations by their bytes -/

namespace Destination

/-- A place in memory out of numbers of registers and a displacement. -/
def placeAt (prefixes : List UInt8) (base index : Option Nat) (scale : Nat) (d : BitVec 64) :
    MemoryOperand where
  base := base.map (.ofNumber .qword)
  index := index.map (.ofNumber .qword)
  scale
  displacement := d
  segment := (segmentOf prefixes).getD .ds

/-- The base register that a SIB byte names, if there is one. -/
def sibBase (rex : Rex) (m : ModRm) (sib : Nat) : Option Nat :=
  if sib % 8 = 5 ∧ m.mod = 0 then none else some (extend rex.b (sib % 8))

/-- The index register that a SIB byte names, if there is one. -/
def sibIndex (rex : Rex) (sib : Nat) : Option Nat :=
  let index := extend rex.x (sib / 8 % 8)
  if index = 4 then none else some index

/-- What a ModRM byte behind prefixes stands for, in front of further bytes of an instruction that
ends at `next`. Field `rm` is a register if `mod` is 3. Otherwise 4 announces a SIB byte, 5 with a
`mod` of 0 a distance from the next instruction, and each other number is that of a base register.
What is left is the displacement. -/
def ofBytes? (prefixes : List UInt8) (next : Address) (m : ModRm) (rest : List UInt8) :
    Option Destination :=
  let rex := rexOf prefixes
  let memory (base index : Option Nat) (scale : Nat) (d : BitVec 64) : Destination :=
    .memory (placeAt prefixes base index scale d) (prefixes.contains 0x67)
  if m.isRegister then some (.register (BitVec.ofNat 4 (extend rex.b m.rm)).toFin)
  else if m.rm = 4 then
    rest.head?.map fun sib ↦ memory (sibBase rex m sib.toNat) (sibIndex rex sib.toNat)
      (1 <<< (sib.toNat / 64)) (Reader.signExtended rest.tail)
  else if m.rm = 5 ∧ m.mod = 0 then some (memory none none 1 (next + Reader.signExtended rest))
  else some (memory (some (extend rex.b m.rm)) none 1 (Reader.signExtended rest))

end Destination

namespace Decode

open Reader

variable {c : Context} {bytes : List UInt8}

/-! ### Operands -/

/-- What a reader of an instruction with no lock has read. -/
theorem Spec.exists_of_takes {s : Spec} {op : Nat} {place : Option (ModRm × Place)}
    {ofLength : Nat → Instruction} (hlockable : s.lockable = false)
    (h : (s.read c op place).Takes bytes ofLength) :
    ∃ drafts, (Encoding.readAll ⟨c, op, c.operandSize s.size, place⟩ s.forms).Takes bytes drafts ∧
      ∀ n, (ofLength n).mnemonic = s.mnemonic ∧ (ofLength n).prefixes.lock = false ∧
        (ofLength n).operands = drafts.map (· (ofLength n).next) := by
  obtain ⟨front, back, drafts, rfl, hdrafts, hrest⟩ := takes_bind.mp h
  cases hlock : c.prefixes.lock with
  | true =>
    simp only [hlock, hlockable, Bool.false_and, Bool.not_false, Bool.and_true, if_true] at hrest
    exact hrest.elim
  | false =>
    simp only [hlock, Bool.false_and, Bool.false_eq_true, if_false] at hrest
    obtain ⟨rfl, rfl⟩ := takes_pure.mp hrest
    rw [List.append_nil]
    exact ⟨drafts, hdrafts, fun n ↦ ⟨rfl, rfl, rfl⟩⟩

theorem Encoding.takes_readAll_single {e : Encoding} {form : Form} {drafts : List Draft}
    (h : (e.readAll [form]).Takes bytes drafts) :
    ∃ draft, (e.read form).Takes bytes draft ∧ drafts = [draft] := by
  obtain ⟨front, back, draft, rfl, hdraft, hrest⟩ := takes_bind.mp h
  obtain ⟨_, hnil, rfl⟩ := takes_map.mp hrest
  obtain ⟨rfl, rfl⟩ := takes_pure.mp hnil
  rw [List.append_nil]
  exact ⟨draft, hdraft, rfl⟩

/-- The operand at a place that is in memory. -/
theorem Encoding.atPlace_of_operand {e : Encoding} {m : ModRm} {place : Place}
    (hplace : e.place = some (m, place)) {size : Nat} {next : Address} {operand : MemoryOperand}
    (hoperand : place.operand size next = some operand) (register : Nat → Register) :
    e.atPlace size register next = .memory operand := by
  rw [Encoding.atPlace, hplace]
  cases place with
  | register number => cases hoperand
  | memory found => simp only [hoperand]
  | relative found wide => simp only [hoperand]

/-- A branch over a distance of one byte, or of four. -/
theorem Spec.targets_of_takes {s : Spec} {op : Nat} {ofLength : Nat → Instruction}
    (h64 : c.is64) (hlockable : s.lockable = false) (hsize : s.size = .branch)
    (hforms : s.forms = [.branch8] ∨ s.forms = [.branch])
    (h : (s.read c op none).Takes bytes ofLength) (n : Nat) :
    (ofLength n).mnemonic = s.mnemonic ∧ (ofLength n).prefixes.lock = false ∧
      (ofLength n).Targets (.relative (signExtended bytes)) := by
  obtain ⟨drafts, hdrafts, hofLength⟩ := Spec.exists_of_takes hlockable h
  obtain ⟨hmnemonic, hlock, hoperands⟩ := hofLength n
  refine ⟨hmnemonic, hlock, .relative ?_⟩
  have hqword : c.operandSize .branch = .qword := if_pos h64
  have htarget (width : Width) (distance : BitVec 64) (next : Address) :
      (⟨c, op, .qword, none⟩ : Encoding).target width distance next = .branch (next + distance) :=
    congrArg Operand.branch (if_pos h64)
  rw [hsize, hqword] at hdrafts
  obtain ⟨draft, hdraft⟩ : ∃ draft, drafts = [draft] ∧ ∃ count width,
      (do let d ← signed count; return (⟨c, op, .qword, none⟩ : Encoding).target width d :
        Reader Draft).Takes bytes draft := by
    obtain hforms | hforms := hforms
    · rw [hforms] at hdrafts
      obtain ⟨draft, hdraft, rfl⟩ := Encoding.takes_readAll_single hdrafts
      exact ⟨draft, rfl, 1, .qword, hdraft⟩
    · rw [hforms] at hdrafts
      obtain ⟨draft, hdraft, rfl⟩ := Encoding.takes_readAll_single hdrafts
      exact ⟨draft, rfl, 4, .qword, hdraft⟩
  obtain ⟨rfl, count, width, hdraft⟩ := hdraft
  obtain ⟨d, hd, rfl⟩ := takes_map.mp hdraft
  obtain ⟨_, rfl⟩ := takes_signed.mp hd
  rw [hoperands, List.map_singleton, htarget]

/-! ### Addresses -/

namespace Context

theorem addressSize_eq (h64 : c.is64) :
    c.addressSize = if c.prefixes.addressSize then .dword else .qword := by
  have hmode : c.mode = .bits64 := by simpa [is64] using h64
  rw [addressSize, hmode]

/-- A number of 64 bits as part of an address, cut to the width of addresses. -/
def cut (c : Context) (v : BitVec 64) : BitVec 64 :=
  (v.setWidth c.addressSize.bits).setWidth 64

theorem cut_of_wide (h64 : c.is64) (h : c.prefixes.addressSize = false) (v : BitVec 64) :
    c.cut v = v := by
  rw [cut, addressSize_eq h64, h]
  exact (congrArg _ (BitVec.setWidth_eq v)).trans (BitVec.setWidth_eq v)

theorem cut_of_narrow (h64 : c.is64) (h : c.prefixes.addressSize = true) (v : BitVec 64) :
    c.cut v = (v.setWidth 32).setWidth 64 := by
  rw [cut, addressSize_eq h64, h]
  rfl

theorem cut_eq (h64 : c.is64) (v : BitVec 64) :
    (if c.addressSize == .qword then v else (v.setWidth 32).setWidth 64) = c.cut v := by
  cases h : c.prefixes.addressSize with
  | false =>
    rw [cut_of_wide h64 h, addressSize_eq h64, h, if_neg Bool.false_ne_true]
    rfl
  | true =>
    rw [cut_of_narrow h64 h, addressSize_eq h64, h, if_pos rfl]
    rfl

theorem displacement_of_takes {count : Nat} {d : BitVec 64}
    (h : (c.displacement count).Takes bytes d) : d = c.cut (signExtended bytes) := by
  obtain ⟨v, hv, rfl⟩ := takes_map.mp h
  obtain ⟨_, rfl⟩ := takes_signed.mp hv
  rfl

theorem announcedDisplacement_of_takes {mod full : Nat} {d : BitVec 64}
    (h : (c.announcedDisplacement mod full).Takes bytes d) : d = c.cut (signExtended bytes) := by
  unfold announcedDisplacement at h
  split at h
  · exact displacement_of_takes h
  · split at h
    · exact displacement_of_takes h
    · obtain ⟨rfl, rfl⟩ := takes_pure.mp h
      have hzero : signExtended [] = 0 := rfl
      simp [hzero, cut]

/-- A segment without a base address is as good as another. -/
theorem baseOf_getD (r : RegisterFile) (named : Option Segment) {default : Segment}
    (h : hasBase default = false) :
    r.baseOf (named.getD default) = r.baseOf ((named.filter hasBase).getD .ds) := by
  cases named with
  | none =>
    cases default with
    | fs | gs => cases h
    | _ => rfl
  | some segment => cases segment <;> rfl

theorem baseOf_segmentFor {prefixes : List UInt8} (hs : c.prefixes.Follows prefixes)
    (r : RegisterFile) (base : Option Register) :
    r.baseOf (c.segmentFor base) = r.baseOf ((segmentOf prefixes).getD .ds) := by
  rw [← hs.segment]
  refine baseOf_getD r _ ?_
  split
  · split
    · rfl
    · rfl
  · rfl

theorem addressPart_map (r : RegisterFile) (part : Option Nat) :
    r.addressPart (part.map c.addressRegister) =
      r.addressPart (part.map (.ofNumber .qword)) := by
  cases part with
  | none => rfl
  | some n => rfl

/-- A memory operand out of address registers and a displacement. -/
theorem standsFor_memoryAt (h64 : c.is64) {prefixes : List UInt8}
    (hs : c.prefixes.Follows prefixes) (base index : Option Nat) (scale size : Nat)
    (v : BitVec 64) :
    { c.memoryAt (base.map c.addressRegister) (index.map c.addressRegister) scale (c.cut v) with
        size }.StandsFor (Destination.placeAt prefixes base index scale v)
      (prefixes.contains 0x67) := by
  rw [← hs.addressSize]
  have hpart {part : Option Nat} {r : Register} (h : part.map c.addressRegister = some r) :
      ∃ index, r = .general (if c.prefixes.addressSize then .dword else .qword) index := by
    obtain ⟨n, _, rfl⟩ := Option.map_eq_some_iff.mp h
    exact ⟨_, by rw [addressRegister, addressSize_eq h64]; rfl⟩
  refine ⟨⟨fun _ ↦ hpart, fun _ ↦ hpart, fun hnarrow ↦ ?_⟩, fun r ↦ ?_⟩
  · change ((c.cut v).setWidth 32).setWidth 64 = c.cut v
    rw [cut_of_narrow h64 hnarrow]
    exact congrArg (BitVec.setWidth 64) (BitVec.setWidth_setWidth_of_le _ (by decide))
  · have hsum (b i scale : BitVec 64) :
        (((v.setWidth 32).setWidth 64 + b + i * scale).setWidth 32).setWidth 64 =
          ((v + b + i * scale).setWidth 32).setWidth 64 := by
      have hle : 32 ≤ 64 := by decide
      simp only [BitVec.setWidth_add _ _ hle, BitVec.setWidth_setWidth_of_le _ hle,
        BitVec.setWidth_eq]
    simp only [RegisterFile.addressOf, memoryAt, Destination.placeAt, baseOf_segmentFor hs,
      addressPart_map]
    cases hnarrow : c.prefixes.addressSize with
    | false => rw [cut_of_wide h64 hnarrow]
    | true => rw [cut_of_narrow h64 hnarrow, if_pos rfl, if_pos rfl, hsum]

/-- What is read behind a SIB byte. -/
theorem place_of_takes_sib {m : ModRm} {sib : Nat} {place : Place}
    (h : (c.readScaledAddress m sib).Takes bytes place) :
    place = .memory (c.memoryAt ((Destination.sibBase c.rex m sib).map c.addressRegister)
      ((Destination.sibIndex c.rex sib).map c.addressRegister) (1 <<< (sib / 64))
      (c.cut (signExtended bytes))) := by
  have hindex : (if extend c.rex.x (sib / 8 % 8) = 4 then none
      else some (c.addressRegister (extend c.rex.x (sib / 8 % 8)))) =
        (Destination.sibIndex c.rex sib).map c.addressRegister := by
    rw [Destination.sibIndex]
    split
    · rfl
    · rfl
  unfold readScaledAddress at h
  dsimp only at h
  rw [hindex] at h
  rw [Destination.sibBase]
  split at h
  next hbase =>
    obtain ⟨d, hd, rfl⟩ := takes_map.mp h
    rw [if_pos hbase, displacement_of_takes hd]
    rfl
  next hbase =>
    obtain ⟨d, hd, rfl⟩ := takes_map.mp h
    rw [if_neg hbase, announcedDisplacement_of_takes hd]
    rfl

/-- What is read behind a ModRM byte, and what the byte and these bytes stand for. -/
theorem place_of_takes (h64 : c.is64) {prefixes : List UInt8} (hs : c.prefixes.Follows prefixes)
    {m : ModRm} {place : Place} (h : (c.readPlace m).Takes bytes place) :
    (m.isRegister = true ∧ place = .register (extend (rexOf prefixes).b m.rm)) ∨
      m.isRegister = false ∧ ∀ size next, ∃ found place',
        place.operand size next = some found ∧
          Destination.ofBytes? prefixes next m bytes =
            some (.memory place' (prefixes.contains 0x67)) ∧
          found.StandsFor place' (prefixes.contains 0x67) := by
  have hrex : c.rex = rexOf prefixes := hs.rex
  unfold readPlace at h
  split at h
  next hm =>
    obtain ⟨-, rfl⟩ := takes_pure.mp h
    rw [hrex]
    exact .inl ⟨hm, rfl⟩
  next hm =>
    have hword : c.addressSize ≠ .word := by
      rw [addressSize_eq h64]
      split <;> decide
    rw [if_neg hword] at h
    refine .inr ⟨Bool.eq_false_iff.mpr hm, fun size next ↦ ?_⟩
    unfold readLongAddress at h
    unfold Destination.ofBytes?
    dsimp only
    rw [if_neg hm]
    split at h
    next hsib =>
      obtain ⟨front, back, _, rfl, hnext, hback⟩ := takes_bind.mp h
      obtain ⟨sib, rfl, rfl⟩ := takes_next.mp hnext
      rw [place_of_takes_sib hback, if_pos hsib, hrex]
      exact ⟨_, _, rfl, rfl, standsFor_memoryAt h64 hs _ _ _ size _⟩
    next hsib =>
      rw [if_neg hsib]
      split at h
      next hrelative =>
        obtain ⟨d, hd, rfl⟩ := takes_map.mp h
        obtain ⟨_, rfl⟩ := takes_signed.mp hd
        rw [if_pos hrelative]
        refine ⟨_, _, ?_, rfl, standsFor_memoryAt h64 hs none none 1 size _⟩
        rw [← cut_eq h64]
        rfl
      next hrelative =>
        rw [if_neg hrelative]
        obtain ⟨d, hd, rfl⟩ := takes_map.mp h
        rw [announcedDisplacement_of_takes hd, hrex]
        exact ⟨_, _, rfl, rfl,
          standsFor_memoryAt h64 hs (some (extend (rexOf prefixes).b m.rm)) none 1 size _⟩

end Context

/-- The operand of an indirect branch or call stands for the destination that its bytes name. -/
theorem Spec.targets_of_place {prefixes : List UInt8} {s : Spec} {m : ModRm} {place : Place}
    {form : Form} {front : List UInt8} {ofLength : Nat → Instruction} (h64 : c.is64)
    (hs : c.prefixes.Follows prefixes) (hlockable : s.lockable = false)
    (hforms : s.forms = [form])
    (hform : form = .rm .operand ∧ s.size = .branch ∨ ∃ size, form = .memory size)
    (hplace : (c.readPlace m).Takes front place)
    (h : (s.read c 0xff (some (m, place))).Takes bytes ofLength) (n : Nat) :
    (ofLength n).mnemonic = s.mnemonic ∧ (ofLength n).prefixes.lock = false ∧ bytes = [] ∧
      ∃ goal, Destination.ofBytes? prefixes (ofLength n).next m front = some goal ∧
        (ofLength n).Targets goal := by
  obtain ⟨drafts, hdrafts, hofLength⟩ := Spec.exists_of_takes hlockable h
  obtain ⟨hmnemonic, hlock, hoperands⟩ := hofLength n
  rw [hforms] at hdrafts
  obtain ⟨draft, hdraft, rfl⟩ := Encoding.takes_readAll_single hdrafts
  let e : Encoding := ⟨c, 0xff, c.operandSize s.size, some (m, place)⟩
  obtain ⟨rfl, size, rfl⟩ : bytes = [] ∧ ∃ size, draft = e.atPlace size (e.general .qword) := by
    obtain ⟨rfl, hsize⟩ | ⟨size, rfl⟩ := hform
    · have hqword : e.size = .qword := (congrArg c.operandSize hsize).trans (if_pos h64)
      obtain ⟨hnil, hdraft⟩ := takes_pure.mp hdraft
      have hdraft : draft = e.atPlace e.size.bytes (e.general e.size) := hdraft.symm
      rw [hqword] at hdraft
      exact ⟨hnil, _, hdraft⟩
    · obtain ⟨hnil, hdraft⟩ := takes_pure.mp hdraft
      exact ⟨hnil, size, hdraft.symm⟩
  refine ⟨hmnemonic, hlock, rfl, ?_⟩
  rw [List.map_singleton] at hoperands
  obtain ⟨hm, rfl⟩ | ⟨hm, hmemory⟩ := Context.place_of_takes h64 hs hplace
  · refine ⟨_, ?_, .register hoperands⟩
    unfold Destination.ofBytes?
    rw [if_pos hm]
    rfl
  · obtain ⟨found, place', hfound, hbytes, hstands⟩ := hmemory size (ofLength n).next
    rw [Encoding.atPlace_of_operand rfl hfound] at hoperands
    exact ⟨_, hbytes, .memory hoperands hstands⟩

end Decode

end LongMode
