import LongMode.Proofs.Machine.Conditions
import LongMode.Proofs.Machine.LockPrefix
import LongMode.Proofs.Machine.Observing

/-!
Comparisons of operands, and the instructions that act on them. A comparison that completes has read
both operands (`Instruction.Compares`) and leaves a flag word on which every condition tells how
they compare. Branches, moves and stores of truth values ask the flag word for a condition;
`Mnemonic.answered?` is what they do when the question is answered for them, and by
`Machine.execute_after_compare` they do just this after a comparison, with the true answer.
-/

set_option autoImplicit false
set_option relaxedAutoImplicit false

namespace LongMode

/-! ### Comparing operands -/

/-- On a machine, the first two operands of an instruction have these values, at the width of the
first. -/
structure Instruction.Compares (i : Instruction) (m : Machine) {w : Width} (a b : BitVec w.bits) :
    Prop where
  first : ∃ o, i.operands[0]? = some o ∧ o.width? = some w ∧ Ends (Exec.readOperand o w) m a m
  second : ∃ o, i.operands[1]? = some o ∧ Ends (Exec.readOperand o w) m b m

namespace Exec

theorem ends_orUnsupported_iff {α : Type} {o : Option α} {m m' : Machine} {v : α} :
    Ends (orUnsupported o) m v m' ↔ o = some v ∧ m = m' := by
  cases o with
  | none => exact iff_of_false (not_ends_throw _) (fun h ↦ nomatch h.1)
  | some v' =>
    rw [Option.some.injEq]
    exact ends_pure_iff

/-- With `store` unset an operand is read, and then the flags change. -/
theorem ends_update_false {o : Operand} {w : Width} {m m' : Machine} {u : Unit}
    {f : Flags → BitVec w.bits → BitVec w.bits × Flags} (h : Ends (update o w false f) m u m') :
    ∃ a, Ends (readOperand o w) m a m ∧ Ends (setFlags (f m.registers.rflags a).2) m u m' := by
  cases o with
  | register r =>
    obtain ⟨old, m₁, hread, h⟩ := ends_bind_iff.mp h
    obtain rfl := (observing_readRegister r).of_ends hread
    exact ⟨old.setWidth w.bits, ends_bind_iff.mpr ⟨old, m, hread, rfl⟩, h⟩
  | memory o =>
    obtain ⟨address, m₁, hlinear, h⟩ := ends_bind_iff.mp h
    obtain rfl := (observing_linear o).of_ends hlinear
    obtain ⟨a, m₂, hload, h⟩ := ends_bind_iff.mp h
    obtain rfl := (observing_load address w).of_ends hload
    exact ⟨a, ends_bind_iff.mpr ⟨address, m, hlinear, hload⟩, h⟩
  | immediate value size => exact absurd h (not_ends_throw _)
  | branch target => exact absurd h (not_ends_throw _)
  | implicit => exact absurd h (not_ends_throw _)

/-- A comparison reads its operands and leaves the flags of their difference. -/
theorem ends_compare {i : Instruction} {m m' : Machine} {u : Unit}
    (h : Ends (binary .sub false i) m u m') :
    ∃ (w : Width) (a b : BitVec w.bits), i.Compares m a b ∧
      m'.registers.rflags = (Alu.sub m.registers.rflags a b false).2 := by
  obtain ⟨dst, m₁, hfirst, h⟩ := ends_bind_iff.mp h
  obtain ⟨src, m₂, hsecond, h⟩ := ends_bind_iff.mp h
  obtain ⟨w, m₃, hwidth, h⟩ := ends_bind_iff.mp h
  obtain ⟨b, m₄, hb, h⟩ := ends_bind_iff.mp h
  obtain ⟨hdst, rfl⟩ := ends_orUnsupported_iff.mp hfirst
  obtain ⟨hsrc, rfl⟩ := ends_orUnsupported_iff.mp hsecond
  obtain ⟨hw, rfl⟩ := ends_orUnsupported_iff.mp hwidth
  obtain rfl := (observing_readOperand src w).of_ends hb
  obtain ⟨a, ha, hflags⟩ := ends_update_false h
  refine ⟨w, a, b, ⟨⟨dst, hdst, hw, ha⟩, src, hsrc, hb⟩, ?_⟩
  rw [← ends_modify_iff.mp hflags]
  rfl

end Exec

/-! ### Acting on a comparison -/

/-- What an instruction that asks for a condition does when the question is answered for it. -/
def Mnemonic.answered? (answer : Condition → Bool) (i : Instruction) :
    Mnemonic → Option (Exec Transfer)
  | .jcc c => some (Exec.branchIf (answer c) i)
  | .setcc c => some do
    Exec.setIf (answer c) i
    return .next
  | .cmov c => some do
    Exec.moveIf (answer c) i
    return .next
  | _ => none

namespace Machine

open Exec

/-- An instruction that asks for a condition asks the flag word. -/
theorem execute_of_answered {m : Machine} {j : Instruction} {effect : Exec Transfer}
    (hlock : j.prefixes.lock = false)
    (h : j.mnemonic.answered? (·.holds m.registers.rflags) j = some effect) :
    m.execute j = m.outcome j effect := by
  have hasks : ∃ asking, j.mnemonic.effect? j = some asking ∧ asking.exec m = effect.exec m := by
    cases hmnemonic : j.mnemonic with
    | jcc c =>
      rw [hmnemonic] at h
      refine ⟨jumpOn c j, rfl, ?_⟩
      rw [← Option.some.inj h]
      exact exec_bind_of_ok (exec_flags m) _
    | setcc c =>
      rw [hmnemonic] at h
      refine ⟨_, Mnemonic.effect?_of_straight? rfl, ?_⟩
      rw [← Option.some.inj h]
      exact exec_bind_congr (exec_bind_of_ok (exec_flags m) _) _
    | cmov c =>
      rw [hmnemonic] at h
      refine ⟨_, Mnemonic.effect?_of_straight? rfl, ?_⟩
      rw [← Option.some.inj h]
      exact exec_bind_congr (exec_bind_of_ok (exec_flags m) _) _
    | _ => exact nomatch hmnemonic ▸ h
  obtain ⟨asking, hasking, hexec⟩ := hasks
  have heffect : j.effect = .ok asking := by
    rw [Instruction.effect, hlock, hasking]
    rfl
  rw [execute_eq_outcome heffect, outcome, outcome, hexec]

/-- A comparison that completes leaves flags that tell how its operands compare. -/
theorem tells_of_compare {m : Machine} {i : Instruction} {done : Completion}
    (hcompare : i.mnemonic = .cmp) (hdone : (m.execute i).1 = .ok done) :
    ∃ (w : Width) (a b : BitVec w.bits), i.Compares m a b ∧ done.registers.rflags.Tells a b := by
  have hexecute : m.execute i = (.ok done, (m.execute i).2) := Prod.ext hdone rfl
  obtain ⟨effect, transfer, m', heffect, hexec, rfl, -⟩ := exists_ends_of_execute hexecute
  rw [Instruction.effect, hcompare] at heffect
  cases hlock : i.prefixes.lock with
  | true =>
    -- A comparison has no cell to lock.
    rw [hlock] at heffect
    cases heffect
  | false =>
    rw [hlock] at heffect
    obtain rfl := Except.ok.inj heffect
    obtain ⟨u, m₁, hends, hnext⟩ := ends_bind_iff.mp hexec
    obtain ⟨-, rfl⟩ := ends_pure_iff.mp hnext
    obtain ⟨w, a, b, hcompares, hflags⟩ := ends_compare hends
    refine ⟨w, a, b, hcompares, ?_⟩
    have hn : 4 < w.bits := by cases w <;> decide
    have htells := (Alu.tells_sub m.registers.rflags a b hn).fixed
    rw [← hflags] at htells
    exact htells

/-- After the difference of two words, at every width, each of the sixteen conditions tells how they
compare. So after a comparison that completes, each instruction that asks for a condition does what
it has to do by the true answer for the operands, on every machine with the flags that were left. -/
theorem execute_after_compare :
    (∀ (w : Width) (f : Flags) (x y : BitVec 64),
      (Alu.sub f (x.setWidth w.bits) (y.setWidth w.bits) false).2.Tells
        (x.setWidth w.bits) (y.setWidth w.bits)) ∧
    ∀ {m : Machine} {i : Instruction} {done : Completion}, i.mnemonic = .cmp →
      (m.execute i).1 = .ok done →
      ∃ (w : Width) (a b : BitVec w.bits), i.Compares m a b ∧ done.registers.rflags.Tells a b ∧
        ∀ (m' : Machine) (j : Instruction) (effect : Exec Transfer),
          m'.registers.rflags = done.registers.rflags → j.prefixes.lock = false →
          j.mnemonic.answered? (fun c ↦ c.Relates a b) j = some effect →
          m'.execute j = m'.outcome j effect := by
  refine ⟨fun w f x y ↦ Alu.tells_sub f _ _ (by cases w <;> decide), ?_⟩
  intro m i done hcompare hdone
  obtain ⟨w, a, b, hcompares, htells⟩ := tells_of_compare hcompare hdone
  refine ⟨w, a, b, hcompares, htells, fun m' j effect hflags hlock hanswered ↦ ?_⟩
  refine execute_of_answered hlock ?_
  have hanswer : (fun c : Condition ↦ decide (c.Relates a b)) =
      fun c ↦ c.holds m'.registers.rflags := by
    funext c
    rw [hflags, ← Bool.decide_coe (c.holds _), decide_eq_decide.mpr (htells c)]
  rw [← hanswer]
  exact hanswered

/-- A comparison of the lower halves of two registers. -/
def comparison : Instruction where
  mnemonic := .cmp
  operands := [.register (.general .dword Register.rax), .register (.general .dword Register.rcx)]
  prefixes := {}
  address := 0x400000
  length := 2
  flow := .next
  stackIncrement := 0
  elementSize := 4
  narrowAddress := false

/-- A branch that is taken if the first of two numbers was less. -/
def branchIfLess : Instruction where
  mnemonic := .jcc .less
  operands := [.branch 0x400010]
  prefixes := {}
  address := 0x400002
  length := 2
  flow := .conditionalBranch
  stackIncrement := 0
  elementSize := 0
  narrowAddress := false

/-- A machine that is to compare the lowest number of 32 bits with one. -/
def comparing : Machine where
  registers := ((RegisterFile.start 0x400000 0).set Register.rax 0x80000000).set Register.rcx 1
  memory := {}
  retired := 0

/-- The lowest number is less than one, although their difference is positive. -/
theorem execute_after_compare_lowest :
    ∃ done, (comparing.execute comparison).1 = .ok done ∧ done.registers.rflags.get .sign = false ∧
      ∀ m' : Machine, m'.registers.rflags = done.registers.rflags →
        m'.execute branchIfLess = m'.outcome branchIfLess (branchIf true branchIfLess) := by
  have hdone : ∃ done, (comparing.execute comparison).1 = .ok done := ⟨_, rfl⟩
  obtain ⟨done, hdone⟩ := hdone
  obtain ⟨w, a, b, ⟨⟨o, ho, hw, ha⟩, o', ho', hb⟩, htells, hacts⟩ :=
    execute_after_compare.2 rfl hdone
  obtain rfl := Option.some.inj ho
  obtain rfl := Option.some.inj ho'
  obtain rfl := Option.some.inj hw
  have hlow : a = 0x80000000#32 := (Except.ok.inj (congrArg Prod.fst ha)).symm
  have hone : b = 0x1#32 := (Except.ok.inj (congrArg Prod.fst hb)).symm
  subst hlow hone
  refine ⟨done, hdone, ?_, fun m' hflags ↦ hacts m' branchIfLess _ hflags rfl ?_⟩
  · rw [Bool.eq_false_iff]
    have hpositive : ¬Condition.sign.Relates (n := 32) 0x80000000#32 0x1#32 := by decide
    exact fun hset ↦ hpositive ((htells .sign).mp hset)
  · exact congrArg (fun taken ↦ some (branchIf taken branchIfLess)) (by decide)

end Machine

end LongMode
