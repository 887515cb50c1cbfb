import LongMode.Proofs.Machine.Conditions
import LongMode.Proofs.Machine.Fills
import LongMode.Proofs.Machine.Straight
import Mathlib.Data.Nat.Find

/-!
Repeated comparisons of strings. Such an instruction is a search: it compares element after element
up to the first pair that the repeat prefix stops at, and no further than the counter says
(`searched`). What it compares can be told from the registers and the memory that it is begun on
(`StringOp.comparands`), because it changes no memory, and of the flags that a comparison leaves
only the six status flags, which the next one sets anew (`Alu.sub_congr`).

* `Exec.exec_compareStep`, `Exec.exec_compareRepeated_succ`: one comparison, and where it leads;
* `Exec.exec_compareRepeated`: all of them, by induction on how many are left;
* `Machine.execute_search`: the instruction.
-/

set_option autoImplicit false
set_option relaxedAutoImplicit false

namespace LongMode

/-! ### Searches -/

/-- Whether a search with a repeat prefix stops at a pair of words. -/
def Repeat.stopsOn {n : Nat} (repetition : Repeat) (a b : BitVec n) : Bool :=
  match repetition with
  | .rep => a != b
  | .repne => a == b

/-- How many of at most `n` places a search looks at: all up to the first at which it stops. -/
def searched (n : Nat) (stops : Nat → Bool) : Nat :=
  min n ((List.range n).findIdx stops + 1)

theorem searched_zero (stops : Nat → Bool) : searched 0 stops = 0 :=
  Nat.zero_min _

/-- A search goes on behind the first place, unless it stops there. -/
theorem searched_succ (n : Nat) (stops : Nat → Bool) :
    searched (n + 1) stops = if stops 0 then 1 else searched n (fun k ↦ stops (k + 1)) + 1 := by
  rw [searched, searched, List.range_succ_eq_map, List.findIdx_cons, List.findIdx_map]
  cases stops 0 with
  | true => simp
  | false =>
    simp only [cond_false, Bool.false_eq_true, if_false, Nat.add_min_add_right]
    rfl

/-- A word that may be loaded, or the fault. -/
def Memory.readWord (m : Memory) (a : Address) (w : Width) : Except MemoryFault (BitVec w.bits) :=
  (m.check .read a w.bytes).map fun _ ↦ m.word a w.bytes

/-! ### Flags of comparisons -/

/-- A difference sets all status flags, and takes nothing but the others from the flags before. -/
theorem Alu.sub_congr {n : Nat} {f g : Flags} (h : f.Agree (Flag.status.map Flag.position) g)
    (a b : BitVec n) (borrow : Bool) : (sub f a b borrow).2 = (sub g a b borrow).2 :=
  (((((h.set_both .carry _).set_both .overflow _).set_both .adjust _).set_both .zero _).set_both
    .sign _).set_both .parity _ |>.eq_of_nil

/-! ### What is compared -/

/-- The words of the comparison of number `k`, or the fault of the first of its loads that is
refused: a source element, or the accumulator in its place, and a destination element. -/
def StringOp.comparands (op : StringOp) (i : Instruction) (w : Width) (m : Machine) (k : Nat) :
    Except MemoryFault (BitVec w.bits × BitVec w.bits) := do
  let a ←
    if op = .cmps then
      m.memory.readWord (Exec.element (i.sourceStart m.registers) (Exec.walksBack m) w k) w
    else .ok ((m.registers.get Register.rax).setWidth w.bits)
  let b ← m.memory.readWord (Exec.element (m.registers.get Register.rdi) (Exec.walksBack m) w k) w
  return (a, b)

/-- Whether a search stops at the comparison of number `k`. One that is refused does not count. -/
def StringOp.stops (op : StringOp) (repetition : Repeat) (i : Instruction) (w : Width)
    (m : Machine) (k : Nat) : Bool :=
  match op.comparands i w m k with
  | .ok (a, b) => repetition.stopsOn a b
  | .error _ => false

/-- The registers after `count` comparisons: the string registers are past them, and the counter
went down. -/
def StringOp.passed (op : StringOp) (r : RegisterFile) (back : Bool) (w : Width) (count : Nat) :
    RegisterFile :=
  if op = .cmps then Exec.pass r back w count else Exec.walked r Register.rdi back w count

namespace Exec

variable {op : StringOp} {w : Width} {i : Instruction} {m : Machine}

theorem exec_load_eq (a : Address) (w : Width) (m : Machine) :
    (load a w).exec m =
      match m.memory.readWord a w with
      | .ok v => (.ok v, m)
      | .error e => (.error (.fault (.memory e)), m) := by
  rw [Memory.readWord]
  cases hcheck : m.memory.check .read a w.bytes with
  | error e => exact exec_load_of_error hcheck
  | ok => exact exec_load hcheck

section Pass

variable (r : RegisterFile) (back : Bool) (w : Width) (count : Nat)

/-- One element after others. -/
theorem pass_succ :
    (((pass r back w count).set Register.rsi
        (element ((pass r back w count).get Register.rsi) back w 1)).set Register.rdi
          (element ((pass r back w count).get Register.rdi) back w 1)).set Register.rcx
            ((pass r back w count).get Register.rcx - 1) = pass r back w (count + 1) := by
  refine RegisterFile.eq_of_get (fun j ↦ ?_) rfl
  rw [RegisterFile.get_set, RegisterFile.get_set, RegisterFile.get_set, rsi_pass, rdi_pass,
    rcx_pass, element_one_element, element_one_element, get_pass, get_pass]
  split_ifs
  · rw [BitVec.ofNat_add]
    grind
  · rfl
  · rfl
  · rfl

end Pass

/-! ### One comparison -/

/-- The machine after some comparisons, with the flags of the last one. -/
def past (op : StringOp) (w : Width) (m : Machine) (count : Nat) (f : Flags) : Machine :=
  { m with registers := { op.passed m.registers (walksBack m) w count with rflags := f } }

/-- The comparison of source and destination elements. -/
def compareElements (w : Width) (i : Instruction) : Exec Unit := do
  let a ← load (← sourceAddress i) w
  let b ← load (← general Register.rdi) w
  modifyFlags fun f ↦ (Alu.sub f a b false).2
  advance Register.rsi 1 w
  advance Register.rdi 1 w

/-- The comparison of destination elements with a word. -/
def compareWith (w : Width) (a : BitVec w.bits) : Exec Unit := do
  let b ← load (← general Register.rdi) w
  modifyFlags fun f ↦ (Alu.sub f a b false).2
  advance Register.rdi 1 w

/-- The step of a search. -/
def compareStep (op : StringOp) (w : Width) (i : Instruction) (m : Machine) : Exec Unit :=
  if op = .cmps then compareElements w i
  else compareWith w ((m.registers.get Register.rax).setWidth w.bits)

/-- The registers after one more comparison, apart from the counter and the flags. -/
def advanced (op : StringOp) (r : RegisterFile) (back : Bool) (w : Width) : RegisterFile :=
  if op = .cmps then
    (r.set Register.rsi (element (r.get Register.rsi) back w 1)).set Register.rdi
      (element (r.get Register.rdi) back w 1)
  else r.set Register.rdi (element (r.get Register.rdi) back w 1)

theorem passed_succ (op : StringOp) (r : RegisterFile) (back : Bool) (w : Width) (count : Nat) :
    (advanced op (op.passed r back w count) back w).set Register.rcx
        ((op.passed r back w count).get Register.rcx - 1) = op.passed r back w (count + 1) := by
  by_cases hop : op = .cmps
  · rw [advanced, StringOp.passed, StringOp.passed, if_pos hop, if_pos hop, if_pos hop]
    exact pass_succ r back w count
  · rw [advanced, StringOp.passed, StringOp.passed, if_neg hop, if_neg hop, if_neg hop]
    exact walked_succ r (by decide) back w count

theorem rdi_passed (op : StringOp) (r : RegisterFile) (back : Bool) (w : Width) (count : Nat) :
    (op.passed r back w count).get Register.rdi = element (r.get Register.rdi) back w count := by
  rw [StringOp.passed]
  split
  · exact rdi_pass r back w count
  · exact get_walked ..

theorem rcx_passed (op : StringOp) (r : RegisterFile) (back : Bool) (w : Width) (count : Nat) :
    (op.passed r back w count).get Register.rcx =
      r.get Register.rcx - BitVec.ofNat 64 count := by
  rw [StringOp.passed]
  split
  · exact rcx_pass r back w count
  · exact get_walked ..

theorem exec_modifyFlags (f : Flags → Flags) (m : Machine) :
    (modifyFlags f).exec m =
      (.ok (), { m with registers := { m.registers with rflags := f m.registers.rflags } }) := rfl

theorem exec_advance_both (w : Width) (m : Machine) :
    (advance Register.rsi 1 w >>= fun _ ↦ advance Register.rdi 1 w).exec m =
      (.ok (), { m with registers := advanced .cmps m.registers (walksBack m) w }) := by
  have hrdi (value : BitVec 64) : (m.registers.set Register.rsi value).get Register.rdi =
      m.registers.get Register.rdi := RegisterFile.get_set ..
  rw [exec_bind_of_ok (exec_advance ..), exec_advance, hrdi]
  rfl

/-- What one more comparison leaves, if it goes in a direction. -/
def reached (op : StringOp) (w : Width) (m : Machine) (k : Nat) (f : Flags) (back : Bool) :
    Except Stop Unit × Machine :=
  (.ok (), { m with registers :=
    { advanced op (op.passed m.registers (walksBack m) w k) back w with rflags := f } })

/-- The rest of a comparison after others, once its first word is there. -/
theorem exec_compareRest (op : StringOp) (m : Machine) (k : Nat) {f : Flags} (a : BitVec w.bits)
    {next : Exec Unit} (hnext : ∀ g : Flags, g.get .direction = f.get .direction →
      next.exec (past op w m k g) = reached op w m k g (walksBack m)) :
    (do
      let b ← load (← general Register.rdi) w
      modifyFlags fun f ↦ (Alu.sub f a b false).2
      next : Exec Unit).exec (past op w m k f) =
      match m.memory.readWord (element (m.registers.get Register.rdi) (walksBack m) w k) w with
      | .ok b => reached op w m k (Alu.sub f a b false).2 (walksBack m)
      | .error e => (.error (.fault (.memory e)), past op w m k f) := by
  have hrdi : (past op w m k f).registers.get Register.rdi =
      element (m.registers.get Register.rdi) (walksBack m) w k := rdi_passed ..
  have hload := exec_load_eq (element (m.registers.get Register.rdi) (walksBack m) w k) w
    (past op w m k f)
  have hmemory : (past op w m k f).memory = m.memory := rfl
  rw [exec_bind_of_ok (exec_general _ _), hrdi]
  rw [hmemory] at hload
  cases hword : m.memory.readWord (element (m.registers.get Register.rdi) (walksBack m) w k) w with
  | error e =>
    rw [hword] at hload
    exact exec_bind_of_error hload _
  | ok b =>
    rw [hword] at hload
    have hdirection : (Alu.sub f a b false).2.get .direction = f.get .direction := by
      simp [Alu.sub, Alu.get_setResult, Flags.get_set]
    rw [exec_bind_of_ok hload, exec_bind_of_ok (exec_modifyFlags ..)]
    exact hnext _ hdirection

/-- One comparison after others. -/
theorem exec_compareStep (op : StringOp) (w : Width) (i : Instruction) (m : Machine) (k : Nat)
    {f : Flags} (hdirection : f.get .direction = walksBack m) :
    (compareStep op w i m).exec (past op w m k f) =
      match op.comparands i w m k with
      | .ok (a, b) => reached op w m k (Alu.sub f a b false).2 (walksBack m)
      | .error e => (.error (.fault (.memory e)), past op w m k f) := by
  have hback (g : Flags) (hg : g.get .direction = f.get .direction) :
      walksBack (past op w m k g) = walksBack m := hg.trans hdirection
  by_cases hop : op = .cmps
  · have hsource : i.sourceStart (past op w m k f).registers =
        element (i.sourceStart m.registers) (walksBack m) w k := by
      subst hop
      exact sourceStart_pass m.registers (walksBack m) w k i
    have hload := exec_load_eq (element (i.sourceStart m.registers) (walksBack m) w k) w
      (past op w m k f)
    have hmemory : (past op w m k f).memory = m.memory := rfl
    rw [hmemory] at hload
    rw [compareStep, if_pos hop, compareElements, exec_bind_of_ok (exec_sourceAddress i _), hsource,
      StringOp.comparands, if_pos hop]
    cases hword : m.memory.readWord (element (i.sourceStart m.registers) (walksBack m) w k) w with
    | error e =>
      rw [hword] at hload
      exact exec_bind_of_error hload _
    | ok a =>
      rw [hword] at hload
      refine (exec_bind_of_ok hload _).trans ((exec_compareRest op m k a fun g hg ↦ ?_).trans ?_)
      · rw [exec_advance_both, hback g hg]
        subst hop
        rfl
      · cases m.memory.readWord (element (m.registers.get Register.rdi) (walksBack m) w k) w with
        | error e => rfl
        | ok b => rfl
  · rw [compareStep, if_neg hop, compareWith, StringOp.comparands, if_neg hop]
    refine (exec_compareRest op m k _ fun g hg ↦ ?_).trans ?_
    · rw [exec_advance, hback g hg, reached, advanced, if_neg hop]
      rfl
    · cases m.memory.readWord (element (m.registers.get Register.rdi) (walksBack m) w k) w with
      | error e => rfl
      | ok b => rfl

/-! ### All comparisons -/

theorem get_zero_sub (f : Flags) (a b : BitVec w.bits) :
    (Alu.sub f a b false).2.get .zero = (a == b) := by
  have hequal := Alu.tells_sub f a b (by cases w <;> decide) .equal
  rw [Bool.eq_iff_iff, beq_iff_eq]
  exact hequal

theorem stopsAt_sub (repetition : Repeat) (f : Flags) (a b : BitVec w.bits) :
    stopsAt repetition ((Alu.sub f a b false).2.get .zero) = repetition.stopsOn a b := by
  rw [get_zero_sub]
  cases repetition with
  | rep => rfl
  | repne => rfl

/-- The flags after `count` comparisons: those of the last one. -/
def lastFlags (op : StringOp) (i : Instruction) (w : Width) (m : Machine) : (count : Nat) → Flags
  | 0 => m.registers.rflags
  | k + 1 =>
    match op.comparands i w m k with
    | .ok (a, b) => (Alu.sub m.registers.rflags a b false).2
    | .error _ => m.registers.rflags

section Flags

variable (op : StringOp) (i : Instruction) (w : Width) (m : Machine)

theorem agree_lastFlags (count : Nat) :
    m.registers.rflags.Agree (Flag.status.map Flag.position) (lastFlags op i w m count) := by
  have hn : 4 < w.bits := by cases w <;> decide
  cases count with
  | zero => exact .refl _ _
  | succ k =>
    rw [lastFlags]
    cases op.comparands i w m k with
    | error e => exact .refl _ _
    | ok words => exact (Alu.governs_sub words.1 words.2 false _ hn).others

theorem direction_lastFlags (count : Nat) :
    (lastFlags op i w m count).get .direction = walksBack m :=
  agree_lastFlags op i w m count _ (by decide)

/-- What a comparison leaves does not depend on those before it. -/
theorem sub_lastFlags {k : Nat} {a b : BitVec w.bits} (h : op.comparands i w m k = .ok (a, b)) :
    (Alu.sub (lastFlags op i w m k) a b false).2 = lastFlags op i w m (k + 1) := by
  rw [lastFlags, h]
  exact (Alu.sub_congr (agree_lastFlags op i w m k) a b false).symm

end Flags

/-- The counter tells how many comparisons are left. -/
theorem exec_setGeneral_reached (op : StringOp) (w : Width) (m : Machine) {k left : Nat}
    (hleft : remaining m = k + (left + 1)) (f : Flags) :
    (setGeneral Register.rcx (BitVec.ofNat 64 left)).exec (reached op w m k f (walksBack m)).2 =
      (.ok (), past op w m (k + 1) f) := by
  have hrcx : m.registers.get Register.rcx = BitVec.ofNat 64 (k + (left + 1)) := by
    rw [← hleft, remaining, BitVec.ofNat_toNat, BitVec.setWidth_eq]
  have hcount : BitVec.ofNat 64 left =
      (op.passed m.registers (walksBack m) w k).get Register.rcx - 1 := by
    rw [rcx_passed, hrcx, BitVec.ofNat_add, BitVec.ofNat_add]
    grind
  rw [exec_setGeneral, past, ← passed_succ, ← hcount]
  rfl

/-- One comparison of a search after others: it is refused, or it is the last one, or the search
goes on with one less. -/
theorem exec_compareRepeated_succ (op : StringOp) (repetition : Repeat) (i : Instruction)
    (w : Width) (m : Machine) {left k : Nat} (hleft : remaining m = k + (left + 1)) :
    (compareRepeated repetition (compareStep op w i m) (left + 1)).exec
        (past op w m k (lastFlags op i w m k)) =
      match op.comparands i w m k with
      | .ok (a, b) =>
        (if repetition.stopsOn a b then pure ()
          else compareRepeated repetition (compareStep op w i m) left).exec
            (past op w m (k + 1) (lastFlags op i w m (k + 1)))
      | .error e => (.error (.fault (.memory e)), past op w m k (lastFlags op i w m k)) := by
  have hstep := exec_compareStep op w i m k (direction_lastFlags op i w m k)
  cases hcomparands : op.comparands i w m k with
  | error e =>
    rw [hcomparands] at hstep
    exact exec_bind_of_error hstep _
  | ok words =>
    obtain ⟨a, b⟩ := words
    rw [hcomparands] at hstep
    simp only [sub_lastFlags op i w m hcomparands] at hstep
    have hzero : stopsAt repetition ((lastFlags op i w m (k + 1)).get .zero) =
        repetition.stopsOn a b := by
      rw [← sub_lastFlags op i w m hcomparands, stopsAt_sub]
    refine (exec_bind_of_ok hstep _).trans ?_
    refine (exec_bind_of_ok (exec_setGeneral_reached op w m hleft _) _).trans ?_
    refine (exec_bind_of_ok (exec_flags _) _).trans ?_
    change (if stopsAt repetition ((lastFlags op i w m (k + 1)).get .zero) then pure ()
      else compareRepeated repetition (compareStep op w i m) left : Exec Unit).exec _ = _
    rw [hzero]

/-- The comparisons that are left, after others: as many as the search makes, if they are all
permitted, and otherwise up to the first that is refused. -/
theorem exec_compareRepeated (op : StringOp) (repetition : Repeat) (i : Instruction) (w : Width)
    (m : Machine) (left k : Nat) (hleft : remaining m = k + left) :
    let c := (compareRepeated repetition (compareStep op w i m) left).exec
      (past op w m k (lastFlags op i w m k))
    let count := searched left fun j ↦ op.stops repetition i w m (k + j)
    ((∀ j < count, (op.comparands i w m (k + j)).isOk) →
      c = (.ok (), past op w m (k + count) (lastFlags op i w m (k + count)))) ∧
    ∀ j < count, ∀ e, op.comparands i w m (k + j) = .error e →
      (∀ t < j, (op.comparands i w m (k + t)).isOk) →
      ∃ m', c = (.error (.fault (.memory e)), m') ∧ m'.memory = m.memory := by
  intro c count
  induction left generalizing k with
  | zero =>
    have hcount : count = 0 := searched_zero _
    rw [hcount]
    exact ⟨fun _ ↦ rfl, fun j hj ↦ absurd hj (Nat.not_lt_zero j)⟩
  | succ left ih =>
    have hcount : count = _ := searched_succ left _
    have hc : c = _ := exec_compareRepeated_succ op repetition i w m hleft
    cases hcomparands : op.comparands i w m k with
    | error e =>
      rw [hcomparands] at hc
      have hrefused : ¬(op.comparands i w m (k + 0)).isOk = true := by
        rw [Nat.add_zero, hcomparands]
        exact Bool.false_ne_true
      have hpos : 0 < count := by
        rw [hcount]
        split
        · exact Nat.one_pos
        · exact Nat.succ_pos _
      refine ⟨fun h ↦ absurd (h 0 hpos) hrefused, fun j hj e' he' hbefore ↦ ?_⟩
      obtain rfl | hj0 := Nat.eq_zero_or_pos j
      · rw [Nat.add_zero, hcomparands] at he'
        obtain rfl := Except.error.inj he'
        exact ⟨_, hc, rfl⟩
      · exact absurd (hbefore 0 hj0) hrefused
    | ok words =>
      obtain ⟨a, b⟩ := words
      rw [hcomparands] at hc
      have hstops : op.stops repetition i w m (k + 0) = repetition.stopsOn a b := by
        rw [Nat.add_zero, StringOp.stops, hcomparands]
      have hpermitted (e : MemoryFault) : op.comparands i w m (k + 0) ≠ .error e := by
        rw [Nat.add_zero, hcomparands]
        intro hother
        cases hother
      rw [hstops] at hcount
      cases hstop : repetition.stopsOn a b with
      | true =>
        simp only [hstop, if_true] at hc hcount
        rw [hcount]
        refine ⟨fun _ ↦ hc, fun j hj e he ↦ ?_⟩
        rw [Nat.lt_one_iff.mp hj] at he
        exact absurd he (hpermitted e)
      | false =>
        simp only [hstop, Bool.false_eq_true, if_false] at hc hcount
        have hplace (j : Nat) : k + (j + 1) = k + 1 + j := by omega
        have hnext : (fun j ↦ op.stops repetition i w m (k + (j + 1))) =
            fun j ↦ op.stops repetition i w m (k + 1 + j) := funext fun j ↦ by rw [hplace j]
        rw [hnext] at hcount
        obtain ⟨hcompletes, hrefused⟩ := ih (k + 1) (by omega)
        rw [hcount]
        refine ⟨fun h ↦ ?_, fun j hj e he hbefore ↦ ?_⟩
        · rw [hc, hplace (searched _ _)]
          refine hcompletes fun j hj ↦ ?_
          rw [← hplace j]
          exact h (j + 1) (Nat.succ_lt_succ hj)
        · cases j with
          | zero => exact absurd he (hpermitted e)
          | succ j =>
            rw [hplace j] at he
            rw [hc]
            refine hrefused j (Nat.lt_of_succ_lt_succ hj) e he fun t ht ↦ ?_
            rw [← hplace t]
            exact hbefore (t + 1) (Nat.succ_lt_succ ht)

theorem past_zero (op : StringOp) (w : Width) (m : Machine) :
    past op w m 0 m.registers.rflags = m := by
  have hpassed : op.passed m.registers (walksBack m) w 0 = m.registers := by
    rw [StringOp.passed]
    split
    · exact pass_zero ..
    · exact walked_zero ..
  rw [past, hpassed]

/-- A repeated comparison takes its steps. -/
theorem exec_string_search {op : StringOp} (hop : op = .cmps ∨ op = .scas) {repetition : Repeat}
    {i : Instruction} (hrepetition : i.prefixes.repetition = some repetition)
    (hwide : i.narrowAddress = false) (w : Width) (m : Machine) :
    (string op w i).exec m =
      (compareRepeated repetition (compareStep op w i m) (remaining m)).exec m := by
  have hall (step : Exec Unit) : (compareAll i step).exec m =
      (compareRepeated repetition step (remaining m)).exec m := by
    rw [compareAll, hrepetition]
    exact exec_bind_of_ok (exec_counter m) _
  rcases hop with rfl | rfl
  · rw [string, compareStrings, exec_bind_of_ok (exec_requireWideAddress hwide m)]
    exact hall _
  · rw [string, scanString, exec_bind_of_ok (exec_requireWideAddress hwide m),
      exec_bind_of_ok (exec_generalLow _ w m)]
    exact hall _

/-- Comparisons with narrow addresses are refused. -/
theorem exec_search_of_narrow {op : StringOp} (hop : op = .cmps ∨ op = .scas) {i : Instruction}
    (hnarrow : i.narrowAddress = true) (w : Width) (m : Machine) :
    (string op w i).exec m = (.error (.fault (.decode .unsupported)), m) := by
  have hrefused : (requireWideAddress i).exec m = (.error (.fault (.decode .unsupported)), m) := by
    rw [requireWideAddress, hnarrow]
    rfl
  rcases hop with rfl | rfl
  · exact exec_bind_of_error hrefused _
  · exact exec_bind_of_error hrefused _

end Exec

namespace Machine

open Exec

/-- A repeated comparison of strings makes as many comparisons as its search. If all of their loads
are permitted, then it completes with the string registers past them, the counter at what is left,
and the flags of the last one; with nothing to compare it changes nothing. Otherwise it stops at the
first load that is refused. -/
theorem execute_search {op : StringOp} (hop : op = .cmps ∨ op = .scas) {w : Width}
    {i : Instruction} (hmnemonic : i.mnemonic = .string op w) (hlock : i.prefixes.lock = false)
    {repetition : Repeat} (hrepetition : i.prefixes.repetition = some repetition) (m : Machine) :
    let count := searched (remaining m) (op.stops repetition i w m)
    (i.narrowAddress = false →
      ((∀ j < count, (op.comparands i w m j).isOk) →
        m.CompletesWith i { op.passed m.registers (walksBack m) w count with
          rflags := lastFlags op i w m count }) ∧
      ((∃ j < count, ¬(op.comparands i w m j).isOk) →
        ∃ j < count, ∃ e, (∀ t < j, (op.comparands i w m t).isOk) ∧
          op.comparands i w m j = .error e ∧ m.StopsWith i (.memory e)) ∧
      (remaining m = 0 → m.CompletesWith i m.registers)) ∧
    (i.narrowAddress = true → m.StopsWith i (.decode .unsupported)) := by
  intro count
  have hstraight : i.mnemonic.straight? i = some (string op w i) := by
    rw [hmnemonic]
    rfl
  constructor
  · intro hwide
    have hexec := exec_string_search hop hrepetition hwide w m
    have hall := exec_compareRepeated op repetition i w m (remaining m) 0 (Nat.zero_add _).symm
    simp only [Nat.zero_add] at hall
    rw [lastFlags, past_zero, ← hexec] at hall
    obtain ⟨hcompletes, hrefused⟩ := hall
    refine ⟨fun h ↦ ?_, fun h ↦ ?_, fun hzero ↦ ?_⟩
    · exact completesWith_of_exec hlock hstraight (hcompletes h)
    · obtain ⟨j, ⟨hj, hbad⟩, hfirst⟩ : ∃ j, (j < count ∧ ¬(op.comparands i w m j).isOk) ∧
          ∀ t < j, ¬(t < count ∧ ¬(op.comparands i w m t).isOk) :=
        ⟨Nat.find h, Nat.find_spec h, fun t ht ↦ Nat.find_min h ht⟩
      have hbefore : ∀ t < j, (op.comparands i w m t).isOk := fun t ht ↦
        of_not_not fun hother ↦ hfirst t ht ⟨ht.trans hj, hother⟩
      cases hcomparands : op.comparands i w m j with
      | ok words =>
        rw [hcomparands] at hbad
        exact absurd rfl hbad
      | error e =>
        obtain ⟨m', hexec', hmemory⟩ := hrefused j hj e hcomparands hbefore
        exact ⟨j, hj, e, hbefore, hcomparands, stopsWith_of_exec hlock hstraight hexec' hmemory⟩
    · rw [hzero, searched_zero] at hcompletes
      have hnothing := hcompletes fun j hj ↦ absurd hj (Nat.not_lt_zero j)
      rw [lastFlags, past_zero] at hnothing
      exact completesWith_of_exec hlock hstraight hnothing
  · intro hnarrow
    exact stopsWith_of_exec hlock hstraight (exec_search_of_narrow hop hnarrow w m) rfl

/-- A search of bytes. -/
def searchBytes (op : StringOp) (repetition : Repeat) : Instruction where
  mnemonic := .string op .byte
  operands := [.implicit, .implicit]
  prefixes := { repetition := some repetition }
  address := 0x1000
  length := 2
  flow := .next
  stackIncrement := 0
  elementSize := 1
  narrowAddress := false

/-- A search for the byte 3, of which the third byte is one, leaves two bytes of five. A comparison
of two ranges is refused where the second one ends with the mapped pages, after an equal pair. -/
theorem execute_search_aliasedMachine :
    (∃ after, { aliasedMachine 0 0x2000 5 Flags.initial with
        registers := (aliasedMachine 0 0x2000 5 Flags.initial).registers.set Register.rax 3
      }.CompletesWith (searchBytes .scas .repne) after ∧
      after.get Register.rcx = 2 ∧ after.get Register.rdi = 0x2003 ∧ after.rflags.get .zero) ∧
    (aliasedMachine 0x2fff 0x3fff 5 Flags.initial).StopsWith (searchBytes .cmps .rep)
      (.memory (.unmapped 0x4000 .read)) := by
  constructor
  · have hsearch := execute_search (.inr rfl) (i := searchBytes .scas .repne) rfl rfl rfl
      { aliasedMachine 0 0x2000 5 Flags.initial with
        registers := (aliasedMachine 0 0x2000 5 Flags.initial).registers.set Register.rax 3 }
    refine ⟨_, (hsearch.1 rfl).1 (by decide +kernel), by decide +kernel, by decide +kernel,
      by decide +kernel⟩
  · have hsearch := execute_search (.inl rfl) (i := searchBytes .cmps .rep) rfl rfl rfl
      (aliasedMachine 0x2fff 0x3fff 5 Flags.initial)
    have hfirst : (StringOp.cmps.comparands (searchBytes .cmps .rep) .byte
        (aliasedMachine 0x2fff 0x3fff 5 Flags.initial) 0).isOk := by decide +kernel
    have hsecond : StringOp.cmps.comparands (searchBytes .cmps .rep) .byte
        (aliasedMachine 0x2fff 0x3fff 5 Flags.initial) 1 = .error (.unmapped 0x4000 .read) := by
      decide +kernel
    have hrefused : ¬(StringOp.cmps.comparands (searchBytes .cmps .rep) .byte
        (aliasedMachine 0x2fff 0x3fff 5 Flags.initial) 1).isOk := by
      rw [hsecond]
      exact Bool.false_ne_true
    obtain ⟨j, -, e, hbefore, he, hstops⟩ :=
      (hsearch.1 rfl).2.1 ⟨1, by decide +kernel, hrefused⟩
    rcases Nat.lt_trichotomy j 1 with hlt | rfl | hgt
    · rw [Nat.lt_one_iff.mp hlt] at he
      rw [he] at hfirst
      exact nomatch hfirst
    · rw [hsecond] at he
      exact Except.error.inj he ▸ hstops
    · exact absurd (hbefore 1 hgt) hrefused

end Machine

end LongMode
