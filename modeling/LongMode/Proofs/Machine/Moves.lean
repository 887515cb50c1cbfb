import LongMode.Proofs.Machine.Strings
import LongMode.Proofs.Register.File
import Mathlib.Tactic.SplitIfs

/-!
Moves of strings. A repeated move stands for as many single moves as the counter says, each of which
counts down (`moveEach`). Where its ranges overlap it moves the elements one after the other, and
then it makes the very stores of the single moves. Otherwise it copies chunks, and leaves the bytes
that the single moves leave only if the ranges have no cell in common and, toward lower addresses,
the cells behind the destination are different (`string_eq_moveEach`).

Whether ranges overlap is told from their addresses. Two ranges that do not overlap may still have
cells in common, where a run of shared frames is mapped twice; there the two differ
(`string_ne_moveEach`).
-/

set_option autoImplicit false
set_option relaxedAutoImplicit false

namespace LongMode

/-- An instruction without its repeat prefix. -/
def Instruction.single (i : Instruction) : Instruction :=
  { i with prefixes := { i.prefixes with repetition := none } }

/-- The address of the first source element. -/
def Instruction.sourceStart (i : Instruction) (r : RegisterFile) : Address :=
  (match i.prefixes.segment.getD .ds with
    | .fs => r.fsBase
    | .gs => r.gsBase
    | _ => 0) + r.get Register.rsi

namespace Exec

/-- `count` moves of one element; after each of them the counter goes down by one. -/
def moveEach (w : Width) (i : Instruction) : (count : Nat) → Exec Unit
  | 0 => pure ()
  | count + 1 => do
    string .movs w i.single
    setGeneral Register.rcx ((← general Register.rcx) - 1)
    moveEach w i count

/-! ### Elements and ranges -/

/-- Elements of a segment are displaced by its base. -/
theorem element_add (base a : Address) (back : Bool) (w : Width) (count : Nat) :
    base + element a back w count = element (base + a) back w count := by
  cases back with
  | false => simp only [element, Bool.false_eq_true, if_false, BitVec.add_assoc]
  | true => simp only [element, if_true, BitVec.sub_eq_add_neg, BitVec.add_assoc]

/-- Two ranges that end below 2^64 overlap if they have an address in common. -/
theorem overlaps_iff {a b : Address} {length : Nat} (ha : a.toNat + length < addressLimit)
    (hb : b.toNat + length < addressLimit) :
    overlaps a b length = true ↔ ∃ i < length, ∃ j < length, a.toNat + i = b.toNat + j := by
  rw [overlaps, Bool.and_eq_true, decide_eq_true_iff, decide_eq_true_iff, BitVec.lt_def,
    BitVec.lt_def, Address.toNat_add_ofNat a ha, Address.toNat_add_ofNat b hb]
  constructor
  · rintro ⟨hab, hba⟩
    rcases Nat.le_total a.toNat b.toNat with hle | hle
    · exact ⟨b.toNat - a.toNat, by omega, 0, by omega, by omega⟩
    · exact ⟨0, by omega, a.toNat - b.toNat, by omega, by omega⟩
  · rintro ⟨i, hi, j, hj, heq⟩
    omega

theorem length_le_chunksIn (length : Nat) : length ≤ chunksIn length * chunkSize := by
  simp only [chunksIn, chunkSize]
  omega

/-! ### Registers -/

/-- The registers after `count` elements: the string registers are past them, and the counter went
down. -/
def pass (r : RegisterFile) (back : Bool) (w : Width) (count : Nat) : RegisterFile :=
  ((r.set Register.rsi (element (r.get Register.rsi) back w count)).set Register.rdi
    (element (r.get Register.rdi) back w count)).set Register.rcx
      (r.get Register.rcx - BitVec.ofNat 64 count)

section Pass

variable (r : RegisterFile) (back : Bool) (w : Width) (count : Nat)

theorem get_pass (i : Fin 16) :
    (pass r back w count).get i =
      if Register.rcx = i then r.get Register.rcx - BitVec.ofNat 64 count
      else if Register.rdi = i then element (r.get Register.rdi) back w count
      else if Register.rsi = i then element (r.get Register.rsi) back w count
      else r.get i := by
  rw [pass, RegisterFile.get_set, RegisterFile.get_set, RegisterFile.get_set]

theorem rcx_pass : (pass r back w count).get Register.rcx =
    r.get Register.rcx - BitVec.ofNat 64 count := get_pass r back w count _

theorem rdi_pass : (pass r back w count).get Register.rdi =
    element (r.get Register.rdi) back w count := get_pass r back w count _

theorem rsi_pass : (pass r back w count).get Register.rsi =
    element (r.get Register.rsi) back w count := get_pass r back w count _

theorem pass_zero : pass r back w 0 = r := by
  refine RegisterFile.eq_of_get (fun i ↦ ?_) rfl
  rw [get_pass]
  split_ifs with hrcx hrdi hrsi
  · rw [← hrcx]
    exact BitVec.sub_zero _
  · rw [← hrdi, element_zero]
  · rw [← hrsi, element_zero]
  · rfl

theorem pass_pass : pass (pass r back w 1) back w count = pass r back w (count + 1) := by
  refine RegisterFile.eq_of_get (fun i ↦ ?_) rfl
  rw [get_pass, rcx_pass, rdi_pass, rsi_pass, get_pass, get_pass]
  split_ifs with hrcx hrdi hrsi
  · rw [Nat.add_comm count 1, BitVec.ofNat_add]
    grind
  · exact element_element _ _ _ _
  · exact element_element _ _ _ _
  · rfl

/-- The source is displaced by the elements that were passed. -/
theorem sourceStart_pass (i : Instruction) :
    i.sourceStart (pass r back w count) = element (i.sourceStart r) back w count := by
  rw [Instruction.sourceStart, Instruction.sourceStart, rsi_pass, ← element_add]
  rfl

end Pass

/-! ### What moves do -/

theorem exec_general (index : Fin 16) (m : Machine) :
    (general index).exec m = (.ok (m.registers.get index), m) := rfl

theorem exec_generalLow (index : Fin 16) (w : Width) (m : Machine) :
    (generalLow index w).exec m = (.ok ((m.registers.get index).setWidth w.bits), m) := rfl

theorem exec_setGeneral (index : Fin 16) (value : BitVec 64) (m : Machine) :
    (setGeneral index value).exec m =
      (.ok (), { m with registers := m.registers.set index value }) := rfl

theorem exec_advance (index : Fin 16) (count : Nat) (w : Width) (m : Machine) :
    (advance index count w).exec m = (.ok (), { m with
      registers := m.registers.set index
        (element (m.registers.get index) (walksBack m) w count) }) := rfl

theorem exec_sourceAddress (i : Instruction) (m : Machine) :
    (sourceAddress i).exec m = (.ok (i.sourceStart m.registers), m) := by
  rw [sourceAddress, Instruction.sourceStart]
  cases i.prefixes.segment.getD .ds <;> rfl

theorem exec_requireWideAddress {i : Instruction} (hwide : i.narrowAddress = false) (m : Machine) :
    (requireWideAddress i).exec m = (.ok (), m) := by
  rw [requireWideAddress, hwide]
  rfl

theorem exec_check {access : Access} {a : Address} {length : Nat} {m : Machine}
    (h : m.memory.check access a length = .ok ()) :
    (check access a length).exec m = (.ok (), m) := by
  rw [check, exec_bind_of_ok (exec_memory m), h]
  rfl

theorem exec_span (first : Address) {count : Nat} {w : Width} (m : Machine)
    (h : count * w.bytes < addressLimit) :
    (span first count w).exec m =
      (.ok (lowest first (walksBack m) w count, count * w.bytes), m) := by
  rw [span]
  simp only [Nat.not_le_of_lt h, if_false]
  exact exec_bind_of_ok (exec_backwards m) _

/-- A range of which the length is no number of 64 bits has no span. -/
theorem exec_span_of_le (first : Address) {count : Nat} {w : Width} (m : Machine)
    (h : addressLimit ≤ count * w.bytes) :
    (span first count w).exec m = (.error (.fault (.memory (.unmapped first .read))), m) := by
  rw [span]
  simp only [h, if_true]
  rfl

/-- The memory after a repeated move: elements one after the other where the ranges overlap, and
otherwise chunks. -/
def moved (back : Bool) (w : Width) (count : Nat) (src dst : Address) (m : Memory) : Memory :=
  let total := count * w.bytes
  let srcLow := lowest src back w count
  let dstLow := lowest dst back w count
  if overlaps srcLow dstLow total then m.copyElements back w.bytes count src dst
  else m.copyChunks chunkSize (chunksIn total) srcLow dstLow total

section Moves

variable {w : Width} {i : Instruction} {m : Machine}

/-- The machine after one element was moved. -/
theorem exec_string_single (hwide : i.narrowAddress = false)
    (hread : m.memory.check .read (i.sourceStart m.registers) w.bytes = .ok ())
    (hwrite : m.memory.check .write (m.registers.get Register.rdi) w.bytes = .ok ()) :
    (string .movs w i.single).exec m = (.ok (), { m with
      registers := (m.registers.set Register.rsi
        (element (m.registers.get Register.rsi) (walksBack m) w 1)).set Register.rdi
          (element (m.registers.get Register.rdi) (walksBack m) w 1)
      memory := m.memory.copy (i.sourceStart m.registers) (m.registers.get Register.rdi) w.bytes
      writes := m.writes.push ⟨m.registers.get Register.rdi,
        m.memory.bytes (i.sourceStart m.registers) w.bytes⟩ }) := by
  have hsource : (sourceAddress i.single).exec m = (.ok (i.sourceStart m.registers), m) :=
    exec_sourceAddress i.single m
  have hwide' : i.single.narrowAddress = false := hwide
  have hsingle : i.single.prefixes.repetition.isNone = true := rfl
  rw [string, moveString, exec_bind_of_ok (exec_requireWideAddress hwide' m),
    exec_bind_of_ok hsource, exec_bind_of_ok (exec_general _ m), if_pos hsingle,
    exec_bind_of_ok (exec_load hread), exec_bind_of_ok (exec_store_word hwrite),
    exec_bind_of_ok (exec_advance _ 1 w _), exec_advance, RegisterFile.get_set,
    if_neg (by decide)]
  rfl

/-- One element is moved and counted, and then the others are. -/
theorem exec_moveEach_succ (hwide : i.narrowAddress = false)
    (hread : m.memory.check .read (i.sourceStart m.registers) w.bytes = .ok ())
    (hwrite : m.memory.check .write (m.registers.get Register.rdi) w.bytes = .ok ())
    (count : Nat) :
    ∃ writes, (moveEach w i (count + 1)).exec m = (moveEach w i count).exec { m with
      registers := pass m.registers (walksBack m) w 1
      memory := m.memory.copy (i.sourceStart m.registers) (m.registers.get Register.rdi) w.bytes
      writes } := by
  refine ⟨m.writes.push ⟨m.registers.get Register.rdi,
    m.memory.bytes (i.sourceStart m.registers) w.bytes⟩, ?_⟩
  rw [moveEach, exec_bind_of_ok (exec_string_single hwide hread hwrite),
    exec_bind_of_ok (exec_general _ _), exec_bind_of_ok (exec_setGeneral _ _ _),
    RegisterFile.get_set, if_neg (by decide), RegisterFile.get_set, if_neg (by decide)]
  rfl

/-- The machine after `count` elements were moved and counted. -/
theorem exec_moveEach (hwide : i.narrowAddress = false) (count : Nat)
    (hread : ∀ k < count, m.memory.check .read
      (element (i.sourceStart m.registers) (walksBack m) w k) w.bytes = .ok ())
    (hwrite : ∀ k < count, m.memory.check .write
      (element (m.registers.get Register.rdi) (walksBack m) w k) w.bytes = .ok ()) :
    ∃ writes, (moveEach w i count).exec m = (.ok (), { m with
      registers := pass m.registers (walksBack m) w count
      memory := m.memory.copyElements (walksBack m) w.bytes count (i.sourceStart m.registers)
        (m.registers.get Register.rdi)
      writes }) := by
  induction count generalizing m with
  | zero =>
    refine ⟨m.writes, ?_⟩
    rw [pass_zero]
    rfl
  | succ count ih =>
    have hsrc := hread 0 (Nat.succ_pos _)
    have hdst := hwrite 0 (Nat.succ_pos _)
    rw [element_zero] at hsrc hdst
    have hspace := m.memory.space_copy (i.sourceStart m.registers) (m.registers.get Register.rdi)
      w.bytes
    obtain ⟨writes₁, hone⟩ := exec_moveEach_succ hwide hsrc hdst count
    obtain ⟨writes, hrest⟩ := ih (m := { m with
        registers := pass m.registers (walksBack m) w 1
        memory := m.memory.copy (i.sourceStart m.registers) (m.registers.get Register.rdi) w.bytes
        writes := writes₁ })
      (fun k hk ↦ by
        rw [Memory.check_congr hspace, sourceStart_pass]
        exact (congrArg (m.memory.check _ · _) (element_element _ _ _ _)).trans
          (hread (k + 1) (Nat.succ_lt_succ hk)))
      (fun k hk ↦ by
        rw [Memory.check_congr hspace, rdi_pass]
        exact (congrArg (m.memory.check _ · _) (element_element _ _ _ _)).trans
          (hwrite (k + 1) (Nat.succ_lt_succ hk)))
    refine ⟨writes, ?_⟩
    rw [hone, hrest, sourceStart_pass, rdi_pass, Memory.copyElements,
      ← pass_pass m.registers (walksBack m) w count, ← element_one, ← element_one]
    rfl

/-- The machine after a repeated move. -/
theorem exec_moveRepeated (src dst : Address) (count : Nat)
    (htotal : count * w.bytes < addressLimit)
    (hread : m.memory.check .read (lowest src (walksBack m) w count) (count * w.bytes) = .ok ())
    (hwrite : m.memory.check .write (lowest dst (walksBack m) w count) (count * w.bytes) =
      .ok ()) :
    ∃ writes, (moveRepeated w src dst count).exec m = (.ok (), { m with
      memory := moved (walksBack m) w count src dst m.memory
      writes }) := by
  rw [moveRepeated, exec_bind_of_ok (exec_span src m htotal)]
  simp only
  rw [exec_bind_of_ok (exec_span dst m htotal)]
  simp only
  rw [exec_bind_of_ok (exec_check hread), exec_bind_of_ok (exec_check hwrite), moved]
  split
  · obtain ⟨m', hmove, _, hm'⟩ := exec_moveElements w (walksBack m) count src dst m
      (fun _ hk ↦ check_of_checkSpan hread hk) (fun _ hk ↦ check_of_checkSpan hwrite hk)
    rw [exec_bind_of_ok (exec_backwards m), hmove, hm']
    exact ⟨_, rfl⟩
  · obtain ⟨m', hmove, _, hm'⟩ := exec_moveChunks (chunksIn (count * w.bytes)) _ _ _ m hread hwrite
    rw [hmove, hm']
    exact ⟨_, rfl⟩

/-- The machine after a repeated move, string registers and counter included. -/
theorem exec_string_repeated (hwide : i.narrowAddress = false)
    (hrepeated : i.prefixes.repetition.isSome) {count : Nat}
    (hcount : (m.registers.get Register.rcx).toNat = count) (hpos : count ≠ 0)
    (htotal : count * w.bytes < addressLimit)
    (hread : m.memory.check .read (lowest (i.sourceStart m.registers) (walksBack m) w count)
      (count * w.bytes) = .ok ())
    (hwrite : m.memory.check .write
      (lowest (m.registers.get Register.rdi) (walksBack m) w count) (count * w.bytes) = .ok ()) :
    ∃ writes, (string .movs w i).exec m = (.ok (), { m with
      registers := pass m.registers (walksBack m) w count
      memory := moved (walksBack m) w count (i.sourceStart m.registers)
        (m.registers.get Register.rdi) m.memory
      writes }) := by
  obtain ⟨writes, hmove⟩ := exec_moveRepeated _ _ count htotal hread hwrite
  have hnone := Option.isNone_eq_false_iff.mpr hrepeated
  have hcounter : counter.exec m = (.ok count, m) := by
    rw [← hcount]
    rfl
  have hrcx : m.registers.get Register.rcx - BitVec.ofNat 64 count = 0 := by
    rw [← hcount, BitVec.ofNat_toNat, BitVec.setWidth_eq, BitVec.sub_self]
    rfl
  refine ⟨writes, ?_⟩
  rw [string, moveString, exec_bind_of_ok (exec_requireWideAddress hwide m),
    exec_bind_of_ok (exec_sourceAddress i m), exec_bind_of_ok (exec_general _ m),
    hnone, if_neg Bool.false_ne_true, exec_bind_of_ok hcounter, if_pos hpos, exec_bind_of_ok hmove,
    exec_bind_of_ok (exec_advance _ count w _), exec_bind_of_ok (exec_advance _ count w _),
    exec_setGeneral, RegisterFile.get_set, if_neg (by decide), pass, hrcx]
  rfl

end Moves

/-! ### A repeated move and single moves -/

/-- How a move of `length` bytes is divided makes no difference: the two ranges have an address in
common, so that they are seen to overlap, or else no cell is behind both and, toward lower
addresses, no cell is behind two addresses of the destination. -/
def Divisible {Cell : Type} (resolve : Nat → Option Cell) (back : Bool) (src dst length : Nat) :
    Prop :=
  (∃ i < length, ∃ j < length, src + i = dst + j) ∨
    Apart resolve src dst length ∧ (back = true → Scattered resolve dst length)

instance decidableDivisible {Cell : Type} [DecidableEq Cell] (resolve : Nat → Option Cell)
    (back : Bool) (src dst length : Nat) : Decidable (Divisible resolve back src dst length) :=
  inferInstanceAs (Decidable ((∃ i < length, ∃ j < length, src + i = dst + j) ∨
    Apart resolve src dst length ∧ (back = true → Scattered resolve dst length)))

/-- The number of elements that a repeated move is to move. -/
def remaining (m : Machine) : Nat :=
  (m.registers.get Register.rcx).toNat

/-- The lowest address that a repeated move is to load from. -/
def sourceLow (i : Instruction) (w : Width) (m : Machine) : Address :=
  lowest (i.sourceStart m.registers) (walksBack m) w (remaining m)

/-- The lowest address that a repeated move is to store to. -/
def destinationLow (w : Width) (m : Machine) : Address :=
  lowest (m.registers.get Register.rdi) (walksBack m) w (remaining m)

section Ranges

variable {m : Memory} {src dst : Address} {back : Bool} {w : Width} {count : Nat}

/-- Elements moved one after the other, in either direction, are a copy of the range in which they
lie. -/
theorem contents_copyElements_lowest
    (hsrc : (lowest src back w count).toNat + count * w.bytes < addressLimit)
    (hdst : (lowest dst back w count).toNat + count * w.bytes < addressLimit)
    (hapart : Apart m.space.cell? (lowest src back w count).toNat (lowest dst back w count).toNat
      (count * w.bytes))
    (hscattered : back = true →
      Scattered m.space.cell? (lowest dst back w count).toNat (count * w.bytes)) :
    (m.copyElements back w.bytes count src dst).frames.contents =
      transfer m.space.cell? m.frames.contents (lowest src back w count).toNat
        (lowest dst back w count).toNat (count * w.bytes) := by
  cases back with
  | false => exact m.contents_copyElements w.bytes count src dst hsrc hdst hapart
  | true =>
    have hfirst (a : Address) :
        lowest a true w count + BitVec.ofNat 64 (count * w.bytes - w.bytes) = a :=
      BitVec.sub_add_cancel _ _
    have hcopy := m.contents_copyElements_back w.bytes count _ _ hsrc hdst hapart (hscattered rfl)
    rw [hfirst, hfirst] at hcopy
    exact hcopy

/-- What a repeated move leaves is what the elements leave that are moved one after the other. -/
theorem byte_moved
    (hsrc : (lowest src back w count).toNat + count * w.bytes < addressLimit)
    (hdst : (lowest dst back w count).toNat + count * w.bytes < addressLimit)
    (hcells : Divisible m.space.cell? back (lowest src back w count).toNat
      (lowest dst back w count).toNat (count * w.bytes)) (a : Address) :
    (moved back w count src dst m).byte a =
      (m.copyElements back w.bytes count src dst).byte a := by
  rw [moved]
  by_cases hoverlap : overlaps (lowest src back w count) (lowest dst back w count)
    (count * w.bytes) = true
  · simp only [hoverlap, if_true]
  · simp only [hoverlap, Bool.false_eq_true, if_false]
    obtain ⟨hapart, hscattered⟩ := hcells.resolve_left (hoverlap ∘ (overlaps_iff hsrc hdst).mpr)
    rw [Memory.byte_eq_getD, Memory.byte_eq_getD, Memory.space_copyElements,
      Memory.space_copyChunks, contents_copyElements_lowest hsrc hdst hapart hscattered,
      m.contents_copyChunks _ _ _ _ _ (length_le_chunksIn _) hsrc hdst hapart]

end Ranges

/-- A repeated move that has nothing to move does nothing. -/
theorem exec_string_of_remaining_eq_zero {i : Instruction} {w : Width} {m : Machine}
    (hwide : i.narrowAddress = false) (hrepeated : i.prefixes.repetition.isSome)
    (hzero : remaining m = 0) : (string .movs w i).exec m = (.ok (), m) := by
  have hnone := Option.isNone_eq_false_iff.mpr hrepeated
  have hcounter : counter.exec m = (.ok 0, m) := by
    rw [← hzero]
    rfl
  rw [string, moveString, exec_bind_of_ok (exec_requireWideAddress hwide m),
    exec_bind_of_ok (exec_sourceAddress i m), exec_bind_of_ok (exec_general _ m),
    hnone, if_neg Bool.false_ne_true, exec_bind_of_ok hcounter, if_neg (by decide)]
  rfl

/-- Moves with narrow addresses are refused. -/
theorem exec_string_of_narrow {i : Instruction} (w : Width) (m : Machine)
    (hnarrow : i.narrowAddress = true) :
    (string .movs w i).exec m = (.error (.fault (.decode .unsupported)), m) := by
  have hrefused : (requireWideAddress i).exec m = (.error (.fault (.decode .unsupported)), m) := by
    rw [requireWideAddress, hnarrow]
    rfl
  rw [string, moveString, exec_bind_of_error hrefused]

theorem machine_moveEach_of_narrow {i : Instruction} (w : Width) (m : Machine)
    (hnarrow : i.narrowAddress = true) (count : Nat) :
    ((moveEach w i count).exec m).2 = m := by
  cases count with
  | zero => rfl
  | succ count =>
    have hnarrow' : i.single.narrowAddress = true := hnarrow
    rw [moveEach, exec_bind_of_error (exec_string_of_narrow w m hnarrow')]

/-- Whatever was done to memory before: a repeated move of readable elements to writable places
leaves the registers and bytes that as many single moves leave, each of them with a decrement of the
counter, as long as it makes no difference how the move is divided. Neither of the two is refused
unless its addresses are narrow. -/
theorem string_eq_moveEach (windows : Nat → MapWindow) (history : List Action) (k : Nat)
    (m : Machine) (hm : m.memory = ((World.start windows).after history).memory k) (w : Width)
    (i : Instruction) (hrepeated : i.prefixes.repetition.isSome)
    (hread : m.memory.check .read (sourceLow i w m) (remaining m * w.bytes) = .ok ())
    (hwrite : m.memory.check .write (destinationLow w m) (remaining m * w.bytes) = .ok ())
    (hcells : Divisible m.memory.space.cell? (walksBack m) (sourceLow i w m).toNat
      (destinationLow w m).toNat (remaining m * w.bytes)) :
    let repeated := (string .movs w i).exec m
    let single := (moveEach w i (remaining m)).exec m
    repeated.2.registers = single.2.registers ∧
      (∀ a, repeated.2.memory.byte a = single.2.memory.byte a) ∧
      (i.narrowAddress = false → repeated.1 = .ok () ∧ single.1 = .ok ()) := by
  intro repeated single
  by_cases hwide : i.narrowAddress = false
  · by_cases hzero : remaining m = 0
    · have hrepeat : repeated = (.ok (), m) :=
        exec_string_of_remaining_eq_zero hwide hrepeated hzero
      have hsingle : single = (.ok (), m) := by
        change (moveEach w i (remaining m)).exec m = _
        rw [hzero]
        rfl
      rw [hrepeat, hsingle]
      exact ⟨rfl, fun _ ↦ rfl, fun _ ↦ ⟨rfl, rfl⟩⟩
    · have hpos : 0 < remaining m * w.bytes :=
        Nat.mul_pos (Nat.pos_of_ne_zero hzero) (by cases w <;> decide)
      have hwellFormed : m.memory.WellFormed := by
        rw [hm]
        exact (World.wellFormed_after windows history).memory k
      have hsrc := hwellFormed.lt_of_check hread hpos
      have hdst := hwellFormed.lt_of_check hwrite hpos
      obtain ⟨_, hrepeat⟩ := exec_string_repeated hwide hrepeated rfl hzero
        (Nat.lt_of_le_of_lt (Nat.le_add_left _ _) hsrc) hread hwrite
      obtain ⟨_, hsingle⟩ := exec_moveEach hwide (remaining m)
        (fun _ hk ↦ check_of_checkSpan hread hk) (fun _ hk ↦ check_of_checkSpan hwrite hk)
      have hrepeat' : repeated = _ := hrepeat
      have hsingle' : single = _ := hsingle
      rw [hrepeat', hsingle']
      exact ⟨rfl, byte_moved hsrc hdst hcells, fun _ ↦ ⟨rfl, rfl⟩⟩
  · have hnarrow : i.narrowAddress = true := by simpa using hwide
    have hrepeat : repeated = (_, m) := exec_string_of_narrow w m hnarrow
    have hsingle : single.2 = m := machine_moveEach_of_narrow w m hnarrow _
    rw [hrepeat, hsingle]
    exact ⟨rfl, fun _ ↦ rfl, fun h ↦ absurd h hwide⟩

/-- A repeated move of bytes. -/
def repMovsb : Instruction where
  mnemonic := .string .movs .byte
  operands := [.implicit, .implicit]
  prefixes := { repetition := some .rep }
  address := 0x1000
  length := 2
  flow := .next
  stackIncrement := 0
  elementSize := 1
  narrowAddress := false

/-- One run of shared frames at two addresses. -/
def aliasedPages : List Action :=
  [.share 0x1000,
    .request 0 (.map 0x2000 0x1000 .readWrite (.shared 0)),
    .request 0 (.map 0x3000 0x1000 .readWrite (.shared 0)),
    .request 0 (.poke 0x2000 [1, 2, 3])]

/-- A machine with these pages that is to move `count` elements. -/
def aliasedMachine (src dst : Address) (count : BitVec 64) (flags : Flags) : Machine where
  registers :=
    { (((RegisterFile.start 0x1000 0).set Register.rsi src).set Register.rdi dst).set
        Register.rcx count with
      rflags := flags }
  memory := ((World.start fun _ ↦ {}).after aliasedPages).memory 0
  retired := 0

/-- A move toward lower addresses whose ranges are apart in the frames as well. -/
theorem string_aliasedMachine :
    let m := aliasedMachine 0x2002 0x300a 3 (Flags.initial.set .direction true)
    (∀ a, ((string .movs .byte repMovsb).exec m).2.memory.byte a =
        ((moveEach .byte repMovsb 3).exec m).2.memory.byte a) ∧
      ((string .movs .byte repMovsb).exec m).2.memory.byte 0x2009 = 2 := by
  intro m
  have hremaining : remaining m = 3 := by decide +kernel
  obtain ⟨_, hbytes, _⟩ := string_eq_moveEach (fun _ ↦ {}) aliasedPages 0 m rfl .byte repMovsb rfl
    (by decide +kernel) (by decide +kernel) (by decide +kernel)
  rw [hremaining] at hbytes
  exact ⟨hbytes, by decide +kernel⟩

/-- Where the destination begins in the frame one byte behind the source, two single moves give the
first byte to both places, and a repeated move takes the second byte along. All addresses are
different. -/
theorem string_ne_moveEach :
    let m := aliasedMachine 0x2000 0x3001 2 Flags.initial
    repMovsb.prefixes.repetition.isSome ∧ remaining m = 2 ∧
      m.memory.check .read (sourceLow repMovsb .byte m) 2 = .ok () ∧
      m.memory.check .write (destinationLow .byte m) 2 = .ok () ∧
      ((moveEach .byte repMovsb 2).exec m).2.memory.byte 0x2002 = 1 ∧
      ((string .movs .byte repMovsb).exec m).2.memory.byte 0x2002 = 2 := by
  decide +kernel

end Exec

end LongMode
