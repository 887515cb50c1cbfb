import Mathlib.Data.List.Chain
import LongMode.Core.Handlers
import LongMode.Proofs.Core.Sessions

/-!
What a table of blocks is like, whatever its core has been used for. Neither of its two maps ever
has more than 4096 addresses, no address is in both, and a block is kept under its entry
(`BlockTable.Tidy`). The instructions of a block are a strand: each begins where the one before it
ends, none is locked, control can leave them at the last one only, and each has a handler
(`Block.Strand`); the pages that are stamped hold all of their bytes.

These are kept by each thing that a core does with its table, and so by runs, whatever memory they
meet (`Core.Keeping.runTurns`). Together with what is known of the stamps it follows that the
instructions of a valid block are those that fetching and decoding give (`Session.tables_played`).
-/

set_option autoImplicit false
set_option relaxedAutoImplicit false

namespace LongMode

/-! ### Instructions and their handlers -/

namespace CompiledOp

/-- An instruction is bound to the handler that it has. -/
def IsBound (op : CompiledOp) : Prop :=
  op.instruction.effect = .ok op.handler

theorem bind?_eq_some {i : Instruction} {op : CompiledOp} (h : bind? i = some op) :
    op.instruction = i ∧ op.IsBound := by
  obtain ⟨handler, heffect, rfl⟩ := Option.map_eq_some_iff.mp h
  refine ⟨rfl, ?_⟩
  rw [IsBound]
  cases hresult : i.effect with
  | error e =>
    rw [hresult] at heffect
    cases heffect
  | ok handler' =>
    rw [hresult] at heffect
    exact congrArg Except.ok (Option.some.inj heffect)

/-- Instructions that have handlers can be bound all together. -/
theorem exists_mapM_bind? {instructions : List Instruction}
    (h : ∀ i ∈ instructions, ∃ op, bind? i = some op) :
    ∃ ops, instructions.mapM bind? = some ops ∧ ops.map (·.instruction) = instructions ∧
      ∀ op ∈ ops, op.IsBound := by
  induction instructions with
  | nil => exact ⟨[], rfl, rfl, fun op hop ↦ absurd hop List.not_mem_nil⟩
  | cons i rest ih =>
    obtain ⟨⟨op, hop⟩, hrest⟩ := List.forall_mem_cons.mp h
    obtain ⟨ops, hops, hmap, hbound⟩ := ih hrest
    obtain ⟨rfl, hfirst⟩ := bind?_eq_some hop
    refine ⟨op :: ops, ?_, by rw [List.map_cons, hmap], List.forall_mem_cons.mpr ⟨hfirst, hbound⟩⟩
    rw [List.mapM_cons, hop, hops]
    rfl

end CompiledOp

namespace Core

/-- A bound instruction does what it does when it is dispatched. -/
theorem executeBound_eq {op : CompiledOp} (h : op.IsBound) (t : Thread) (m : Memory) :
    t.executeBound m op = t.execute m op.instruction := by
  rw [CompiledOp.IsBound] at h
  have hmachine (machine : Machine) :
      machine.executeBound op = machine.execute op.instruction := by
    rw [Machine.execute, h]
    rfl
  rw [Thread.executeBound, hmachine]
  rfl

/-- Bound instructions are executed as dispatched ones are. -/
theorem runOps_eq (block : Block) {ops : List CompiledOp} (h : ∀ op ∈ ops, op.IsBound)
    (budget : Nat) (r : Run) :
    runOps block ops budget r = runInstructions block (ops.map (·.instruction)) budget r := by
  induction ops generalizing budget r with
  | nil => cases budget <;> rfl
  | cons op rest ih =>
    cases budget with
    | zero => rfl
    | succ budget =>
      rw [List.forall_mem_cons] at h
      rw [List.map_cons, runOps, executeBound_eq h.1]
      simp only [ih h.2]
      rfl

end Core

/-! ### Strands of instructions -/

namespace Block

/-- At most `room` instructions in a row from an address on, each of which a block may hold. -/
structure Strand (a : Address) (room : Nat) (instructions : List Instruction) : Prop where
  length_le : instructions.length ≤ room
  /-- The first one is at the address. -/
  begins (i : Instruction) : instructions.head? = some i → i.address = a
  /-- Each other one follows the one before it. -/
  follows : instructions.IsChain fun i j ↦ j.address = i.next
  unlocked (i : Instruction) : i ∈ instructions → i.prefixes.lock = false
  /-- Control can leave at the last one only. -/
  flows (i : Instruction) : i ∈ instructions.dropLast → i.flow = .next
  bound (i : Instruction) : i ∈ instructions → ∃ op, CompiledOp.bind? i = some op

theorem strand_nil (a : Address) (room : Nat) : Strand a room [] where
  length_le := Nat.zero_le room
  begins _ h := nomatch h
  follows := .nil
  unlocked _ h := nomatch h
  flows _ h := nomatch h
  bound _ h := nomatch h

variable {m : Memory} {a : Address} {i : Instruction} {room : Nat} {rest : List Instruction}

/-- An instruction that a block may hold is decoded at its address, not locked, and has a
handler. -/
theorem admissible?_eq_some (h : admissible? m a = some i) :
    i.address = a ∧ i.prefixes.lock = false ∧ ∃ op, CompiledOp.bind? i = some op := by
  rw [admissible?] at h
  split at h
  · cases h
  · split at h
    · cases h
    · rename_i i' hdecode
      split at h
      · cases h
      · rename_i hadmitted
        obtain rfl := Option.some.inj h
        rw [Bool.or_eq_true, not_or] at hadmitted
        refine ⟨(isRead_of_decode hdecode).address, by simpa using hadmitted.1, ?_⟩
        rw [CompiledOp.bind?]
        cases hhandler : i'.effect.toOption with
        | none => simp [hhandler] at hadmitted
        | some handler => exact ⟨_, rfl⟩

/-- An instruction in front of a strand that it passes control on to. -/
theorem Strand.cons (h : Strand i.next room rest) (hlock : i.prefixes.lock = false)
    (hflow : rest ≠ [] → i.flow = .next) (hbound : ∃ op, CompiledOp.bind? i = some op) :
    Strand i.address (room + 1) (i :: rest) where
  length_le := Nat.succ_le_succ h.length_le
  begins j hj := by rw [← Option.some.inj hj]
  follows := by
    cases rest with
    | nil => exact .singleton i
    | cons j rest => exact .cons_cons (h.begins j rfl) h.follows
  unlocked j hj := by
    rcases List.mem_cons.mp hj with rfl | hj
    · exact hlock
    · exact h.unlocked j hj
  flows j hj := by
    cases rest with
    | nil => nomatch hj
    | cons k rest =>
      rw [List.dropLast_cons_cons] at hj
      rcases List.mem_cons.mp hj with rfl | hj
      · exact hflow (List.cons_ne_nil _ _)
      · exact h.flows j hj
  bound j hj := by
    rcases List.mem_cons.mp hj with rfl | hj
    · exact hbound
    · exact h.bound j hj

/-- What compilation reads is a strand. -/
theorem strand_of_runFrom {entry : Address} {pages pages' : List (Address × CodeStamp)}
    {instructions : List Instruction}
    (h : runFrom m entry room a pages = some (instructions, pages')) :
    Strand a room instructions := by
  induction room generalizing a pages pages' instructions with
  | zero =>
    rw [runFrom, Option.some.injEq, Prod.mk.injEq] at h
    rw [← h.1]
    exact strand_nil a 0
  | succ room ih =>
    rw [runFrom] at h
    split at h
    · rw [Option.some.injEq, Prod.mk.injEq] at h
      rw [← h.1]
      exact strand_nil a _
    · rename_i i hadmissible
      obtain ⟨rfl, hlock, hbound⟩ := admissible?_eq_some hadmissible
      obtain ⟨between, -, hrest⟩ := Option.bind_eq_some_iff.mp h
      split at hrest
      · rw [Option.some.injEq, Prod.mk.injEq] at hrest
        rw [← hrest.1]
        exact (strand_nil i.next room).cons hlock (fun hne ↦ absurd rfl hne) hbound
      · rename_i hgoesOn
        obtain ⟨⟨rest, after⟩, htail, hcons⟩ := Option.bind_eq_some_iff.mp hrest
        rw [Option.some.injEq, Prod.mk.injEq] at hcons
        rw [← hcons.1]
        refine (ih htail).cons hlock (fun _ ↦ ?_) hbound
        rw [endsWith, Bool.or_eq_true, not_or] at hgoesOn
        simpa using hgoesOn.1

end Block

/-- A block of at most `maxLength` instructions that can be run by its handlers, and whose stamped
pages hold all bytes of its instructions. -/
structure Block.Tidy (b : Block) (maxLength : Nat) : Prop where
  strand : Block.Strand b.entry maxLength b.instructions
  nonempty : b.instructions ≠ []
  covers (i : Instruction) : i ∈ b.instructions → ∀ j < i.length,
    Covered b.pages (i.address + BitVec.ofNat 64 j)

namespace Block

/-- The bytes of an instruction are in the pages of its first byte and of its last one. -/
theorem pageFloor_add_eq (a : Address) {j last : Nat} (hj : j ≤ last) (hlast : last < pageSize) :
    (a + BitVec.ofNat 64 j).pageFloor = a.pageFloor ∨
      (a + BitVec.ofNat 64 j).pageFloor = (a + BitVec.ofNat 64 last).pageFloor := by
  have hlimit := a.toNat_lt
  simp only [Address.pageFloor, Address.page, BitVec.toNat_add, BitVec.toNat_ofNat, pageSize,
    addressLimit] at *
  rcases Nat.lt_or_ge (a.toNat % 4096 + j) 4096 with hsame | hnext
  · left
    congr 1
    omega
  · right
    congr 1
    omega

theorem tidy_of_compile? {m : Memory} {entry : Address} {maxLength : Nat} {b : Block}
    (h : compile? m entry maxLength = some b) : b.entry = entry ∧ b.Tidy maxLength := by
  rw [compile?] at h
  obtain ⟨⟨instructions, pages⟩, hrun, hblock⟩ := Option.bind_eq_some_iff.mp h
  by_cases hempty : instructions.isEmpty = true
  · simp [hempty] at hblock
  · dsimp only at hblock
    rw [if_neg hempty, Option.some.injEq] at hblock
    rw [← hblock]
    have hstrand := strand_of_runFrom hrun
    obtain ⟨-, -, hread⟩ := readFrom_of_runFrom entry _ hrun fun p hp ↦ absurd hp List.not_mem_nil
    refine ⟨rfl, ⟨{ hstrand with length_le := ?_ }, fun hnil ↦ hempty (List.isEmpty_iff.mpr hnil),
      fun i hi j hj ↦ ?_⟩⟩
    · exact Nat.le_trans hstrand.length_le (Nat.min_le_left _ _)
    · obtain ⟨⟨stamp, hfirst⟩, ⟨stamp', hlast⟩⟩ := hread.covered i hi
      obtain ⟨bytes, s, -, hdecode⟩ := hread.decodes i hi
      obtain ⟨hone, hmax, -⟩ := length_of_decode hdecode
      have hpage : i.length - 1 < pageSize := by
        simp only [Decode.maxLength, pageSize] at *
        omega
      have hle : j ≤ i.length - 1 := Nat.le_sub_one_of_lt hj
      rcases pageFloor_add_eq i.address hle hpage with hsame | hsame
      · refine ⟨stamp, ?_⟩
        rw [hsame]
        exact hfirst
      · refine ⟨stamp', ?_⟩
        rw [hsame]
        exact hlast

/-- The instructions of a block can be bound to their handlers, and run by them as they are run when
each is dispatched. -/
theorem Tidy.exists_ops {b : Block} {maxLength : Nat} (h : b.Tidy maxLength) :
    ∃ ops, b.ops? = some ops ∧ ops.map (·.instruction) = b.instructions ∧
      (∀ op ∈ ops, op.IsBound) ∧
      ∀ budget r, Core.runOps b ops budget r = Core.runInstructions b b.instructions budget r := by
  obtain ⟨ops, hops, hmap, hbound⟩ := CompiledOp.exists_mapM_bind? h.strand.bound
  exact ⟨ops, hops, hmap, hbound, fun budget r ↦ by rw [Core.runOps_eq b hbound, hmap]⟩

end Block

/-! ### The table of blocks -/

/-- No more addresses are counted or known than a table has room for, none is both, and a block is
kept under its entry. -/
structure BlockTable.Tidy (t : BlockTable) (maxLength : Nat) : Prop where
  limit : t.maxLength = maxLength
  heat_le : t.heat.size ≤ maxTracked
  slots_le : t.slots.size ≤ maxTracked
  apart (n : Nat) : t.heat.contains n = true → t.slots.contains n = false
  entry (n : Nat) (b : Block) : t.slots[n]? = some (.compiled b) → n = b.entry.toNat
  blocks (n : Nat) (b : Block) : t.slots[n]? = some (.compiled b) → b.Tidy maxLength

namespace BlockTable

variable {t t' : BlockTable} {maxLength : Nat}

theorem tidy_of_empty (hlimit : t.maxLength = maxLength) (hheat : t.heat = ∅)
    (hslots : t.slots = ∅) : t.Tidy maxLength := by
  refine ⟨hlimit, ?_, ?_, fun n h ↦ ?_, fun n b h ↦ ?_, fun n b h ↦ ?_⟩
  · rw [hheat]
    exact Nat.zero_le _
  · rw [hslots]
    exact Nat.zero_le _
  · simp [hheat] at h
  · simp [hslots] at h
  · simp [hslots] at h

/-- Forgetting an address that is known, or counting other addresses than those known, keeps a table
tidy. -/
theorem Tidy.of_subset (h : t.Tidy maxLength) (hheat : t'.heat.size ≤ maxTracked)
    (hslots : t'.slots.size ≤ t.slots.size) (hlimit : t'.maxLength = t.maxLength)
    (hsub : ∀ (n : Nat) (slot : BlockSlot), t'.slots[n]? = some slot → t.slots[n]? = some slot)
    (hapart : ∀ n, t'.heat.contains n = true → t'.slots.contains n = false) :
    t'.Tidy maxLength where
  limit := hlimit.trans h.limit
  heat_le := hheat
  slots_le := Nat.le_trans hslots h.slots_le
  apart := hapart
  entry n b hb := h.entry n b (hsub n _ hb)
  blocks n b hb := h.blocks n b (hsub n _ hb)

theorem getElem?_of_erase {n a : Nat} {slot : BlockSlot} (h : (t.slots.erase a)[n]? = some slot) :
    t.slots[n]? = some slot := by
  rw [Std.ExtTreeMap.getElem?_erase] at h
  split at h
  · exact nomatch h
  · exact h

/-- Whichever address is no longer known. -/
theorem Tidy.erase (h : t.Tidy maxLength) (a : Nat) :
    BlockTable.Tidy { t with slots := t.slots.erase a } maxLength := by
  refine h.of_subset h.heat_le Std.ExtTreeMap.size_erase_le rfl (fun _ _ ↦ getElem?_of_erase)
    fun n hn ↦ ?_
  rw [Std.ExtTreeMap.contains_erase, h.apart n hn, Bool.and_false]

/-- Whichever address is no longer counted. -/
theorem Tidy.cool (h : t.Tidy maxLength) (a : Nat) :
    BlockTable.Tidy { t with heat := t.heat.erase a } maxLength := by
  refine h.of_subset (Nat.le_trans Std.ExtTreeMap.size_erase_le h.heat_le) (Nat.le_refl _) rfl
    (fun _ _ hslot ↦ hslot) fun n hn ↦ ?_
  rw [Std.ExtTreeMap.contains_erase, Bool.and_eq_true] at hn
  exact h.apart n hn.2

/-- A table forgets an address whose code changed. -/
theorem Tidy.invalidate (h : t.Tidy maxLength) (a : Address) :
    (t.invalidate a).Tidy maxLength ∧ (t.invalidate a).slots.contains a.toNat = false := by
  rw [BlockTable.invalidate]
  by_cases hknown : t.slots.contains a.toNat = true
  · rw [if_pos hknown]
    have hforgotten : BlockTable.Tidy { t with
        slots := t.slots.erase a.toNat
        heat := t.heat.erase a.toNat } maxLength := (h.erase a.toNat).cool a.toNat
    refine ⟨⟨hforgotten.limit, hforgotten.heat_le, hforgotten.slots_le, hforgotten.apart,
      hforgotten.entry, hforgotten.blocks⟩, ?_⟩
    simp
  · rw [if_neg hknown]
    exact ⟨h, Bool.eq_false_iff.mpr hknown⟩

/-- A full table of counts starts over, so that there is room for one more. -/
theorem Tidy.warm (h : t.Tidy maxLength) {a : Address} (ha : t.slots.contains a.toNat = false) :
    (t.warm a).Tidy maxLength := by
  refine h.of_subset ?_ (Nat.le_refl _) rfl (fun _ _ hslot ↦ hslot) fun n hn ↦ ?_
  · rw [BlockTable.warm]
    dsimp only
    split
    · simp [Std.ExtTreeMap.size_insert, maxTracked]
    · rename_i hroom
      have hle := h.heat_le
      rw [Std.ExtTreeMap.size_insert]
      split
      · exact hle
      · rename_i hnew
        simp only [hnew, Bool.not_false, and_true] at hroom
        omega
  · rw [BlockTable.warm] at hn
    dsimp only at hn
    rw [Std.ExtTreeMap.contains_insert, Bool.or_eq_true] at hn
    rcases hn with hsame | hold
    · rw [← Nat.compare_eq_eq.mp (beq_iff_eq.mp hsame)]
      exact ha
    · split at hold
      · simp at hold
      · exact h.apart n hold

/-- A table that is not empty has an address to drop, and knows it. -/
theorem exists_victim? (h : 0 < t.slots.size) :
    ∃ victim, t.victim? = some victim ∧ t.slots.contains victim = true := by
  have hlt : t.victims.getD t.stats.evictions 0 % t.slots.size < t.slots.keys.length := by
    rw [Std.ExtTreeMap.length_keys]
    exact Nat.mod_lt _ h
  refine ⟨t.slots.keys[_], List.getElem?_eq_getElem hlt, ?_⟩
  rw [Std.ExtTreeMap.contains_iff_mem, ← Std.ExtTreeMap.mem_keys]
  exact List.getElem_mem hlt

/-- There is room for an address in a table that is not full, or knows it, or has dropped another
one. -/
theorem Tidy.evict (h : t.Tidy maxLength) (a : Address) :
    (t.evict a).Tidy maxLength ∧ (t.evict a).heat = t.heat ∧
      ((t.evict a).slots.size < maxTracked ∨ (t.evict a).slots.contains a.toNat = true) := by
  rw [BlockTable.evict]
  split
  · rename_i hfull
    have hpos : 0 < t.slots.size := Nat.lt_of_lt_of_le (by decide) hfull.1
    obtain ⟨victim, hvictim, hknown⟩ := t.exists_victim? hpos
    rw [hvictim]
    have hdropped := h.erase victim
    refine ⟨⟨hdropped.limit, hdropped.heat_le, hdropped.slots_le, hdropped.apart, hdropped.entry,
      hdropped.blocks⟩, rfl, .inl ?_⟩
    have hle := h.slots_le
    rw [Std.ExtTreeMap.size_erase, if_pos hknown]
    omega
  · rename_i hroom
    refine ⟨h, rfl, ?_⟩
    by_cases hknown : t.slots.contains a.toNat = true
    · exact .inr hknown
    · simp only [hknown, Bool.not_false, and_true] at hroom
      exact .inl (Nat.lt_of_not_le hroom)

/-- What is known of an address takes the place of its count. -/
theorem Tidy.insertSlot (h : t.Tidy maxLength) (a : Address) {slot : BlockSlot}
    (hslot : ∀ b, slot = .compiled b → b.entry = a ∧ b.Tidy maxLength) :
    (t.insertSlot a slot).Tidy maxLength := by
  obtain ⟨hevict, hheat, hroom⟩ := (h.cool a.toNat).evict a
  rw [BlockTable.insertSlot]
  generalize hroomy : { t with heat := t.heat.erase a.toNat }.evict a = roomy at *
  have hfound (n : Nat) (b : Block)
      (hb : (roomy.slots.insert a.toNat slot)[n]? = some (.compiled b)) :
      n = b.entry.toNat ∧ b.Tidy maxLength := by
    rw [Std.ExtTreeMap.getElem?_insert] at hb
    split at hb
    · rename_i hsame
      obtain ⟨hentry, htidy⟩ := hslot b (Option.some.inj hb)
      rw [← Nat.compare_eq_eq.mp hsame, hentry]
      exact ⟨rfl, htidy⟩
    · exact ⟨hevict.entry n b hb, hevict.blocks n b hb⟩
  refine ⟨hevict.limit, hevict.heat_le, ?_, fun n hn ↦ ?_, fun n b hb ↦ (hfound n b hb).1,
    fun n b hb ↦ (hfound n b hb).2⟩
  · have hle := hevict.slots_le
    dsimp only
    rw [Std.ExtTreeMap.size_insert]
    split
    · exact hle
    · rename_i hnew
      exact hroom.resolve_right hnew
  · dsimp only at hn ⊢
    have hold := hevict.apart n hn
    rw [hheat, Std.ExtTreeMap.contains_erase, Bool.and_eq_true, bne_iff_ne] at hn
    rw [Std.ExtTreeMap.contains_insert, hold, Bool.or_false, beq_eq_false_iff_ne]
    exact hn.1

/-- Whatever a table is asked for, and whatever memory it is asked about, it stays tidy. -/
theorem Tidy.compileAt (h : t.Tidy maxLength) (m : Memory) (a : Address) :
    (t.compileAt m a).2.Tidy maxLength := by
  rw [BlockTable.compileAt]
  split
  · rename_i block hcompile
    have hcounted : BlockTable.Tidy { t with
        stats.compiled := t.stats.compiled + 1
        stats.runs := t.stats.runs + 1 } maxLength :=
      ⟨h.limit, h.heat_le, h.slots_le, h.apart, h.entry, h.blocks⟩
    refine hcounted.insertSlot a fun b hb ↦ ?_
    rw [← BlockSlot.compiled.inj hb]
    rw [← h.limit]
    exact Block.tidy_of_compile? hcompile
  · split
    · exact h.insertSlot a fun b hb ↦ by cases hb
    · exact h

theorem Tidy.enter (h : t.Tidy maxLength) (m : Memory) {a : Address}
    (ha : t.slots.contains a.toNat = false) : (t.enter m a).2.Tidy maxLength := by
  have hwarm := h.warm ha
  rw [BlockTable.enter]
  split
  · exact hwarm
  · exact hwarm.compileAt m a

theorem Tidy.lookup (h : t.Tidy maxLength) (m : Memory) (a : Address) :
    (t.lookup m a).2.Tidy maxLength := by
  rw [BlockTable.lookup]
  split
  · split
    · exact ⟨h.limit, h.heat_le, h.slots_le, h.apart, h.entry, h.blocks⟩
    · obtain ⟨hforgotten, hunknown⟩ := h.invalidate a
      exact hforgotten.enter m hunknown
  · split
    · exact h
    · exact (h.erase a.toNat).enter m (by simp)
  · rename_i hunknown
    refine h.enter m ?_
    rw [Std.ExtTreeMap.contains_eq_isSome_getElem?, hunknown]
    rfl

theorem Tidy.noteRetired (h : t.Tidy maxLength) (count : Nat) :
    (t.noteRetired count).Tidy maxLength :=
  ⟨h.limit, h.heat_le, h.slots_le, h.apart, h.entry, h.blocks⟩

end BlockTable

/-! ### Runs -/

namespace Core

/-- A property of tables of blocks that everything keeps that a core does with its table. -/
structure Keeping (P : BlockTable → Prop) : Prop where
  lookup (t : BlockTable) (m : Memory) (a : Address) : P t → P (t.lookup m a).2
  invalidate (t : BlockTable) (a : Address) : P t → P (t.invalidate a)
  noteRetired (t : BlockTable) (count : Nat) : P t → P (t.noteRetired count)
  clear (t : BlockTable) : P t → P t.clear

/-- A core has a table of blocks or not, and if so, one with a property. -/
structure Tables (c : Core) (present : Bool) (P : BlockTable → Prop) : Prop where
  isSome_eq : c.blocks.isSome = present
  holds (t : BlockTable) : c.blocks = some t → P t

variable {P : BlockTable → Prop} {present : Bool} {c : Core}

theorem Tables.of_blocks_eq {c' : Core} (h : c.Tables present P) (hblocks : c'.blocks = c.blocks) :
    c'.Tables present P :=
  ⟨hblocks ▸ h.isSome_eq, fun t ht ↦ h.holds t (hblocks ▸ ht)⟩

/-- A change of the table that keeps the property. -/
theorem Tables.map (h : c.Tables present P) {f : BlockTable → BlockTable}
    (hf : ∀ t, P t → P (f t)) :
    Tables { c with blocks := c.blocks.map f } present P := by
  refine ⟨by rw [Option.isSome_map, h.isSome_eq], fun t ht ↦ ?_⟩
  obtain ⟨t', ht', rfl⟩ := Option.map_eq_some_iff.mp ht
  exact hf t' (h.holds t' ht')

namespace Keeping

variable (h : Keeping P)
include h

theorem runInstructions (block : Block) (instructions : List Instruction) (budget : Nat) {r : Run}
    (hr : r.core.Tables present P) :
    (Core.runInstructions block instructions budget r).core.Tables present P := by
  induction instructions generalizing budget r with
  | nil =>
    rw [Core.runInstructions]
    exact hr
  | cons i rest ih =>
    cases budget with
    | zero => exact hr
    | succ budget =>
      rw [Core.runInstructions]
      split
      · exact hr
      · dsimp only
        split
        · split
          · exact hr.map fun t ↦ h.invalidate t block.entry
          · exact ih budget hr
        · exact hr

theorem runBlock (block : Block) (budget : Nat) {r : Run} (hr : r.core.Tables present P) :
    (Core.runBlock r block budget).core.Tables present P :=
  (h.runInstructions block block.instructions budget hr).map fun t ↦ h.noteRetired t _

theorem blockAt {r : Run} (hr : r.core.Tables present P) :
    (Core.blockAt r).2.core.Tables present P := by
  rw [Core.blockAt]
  split
  · exact hr
  · rename_i table htable
    refine ⟨by rw [← hr.isSome_eq, htable]; rfl, fun t ht ↦ ?_⟩
    rw [← Option.some.inj ht]
    exact h.lookup table _ _ (hr.holds table htable)

theorem advance (budget : Nat) {r : Run} (hr : r.core.Tables present P) :
    (Core.advance r budget).core.Tables present P := by
  have hsingle {r : Run} (hr : r.core.Tables present P) :
      ({ r with core := (r.core.stepOne r.thread r.memory).2 }.extend
        (r.core.stepOne r.thread r.memory).1).core.Tables present P :=
    hr.of_blocks_eq (blocks_stepOne _ _ _).1
  have hfound := h.blockAt hr
  rw [Core.advance]
  dsimp only
  split
  · rename_i r' hblock
    rw [hblock] at hfound
    exact hsingle hfound
  · rename_i block r' hblock
    rw [hblock] at hfound
    split
    · exact hsingle (h.runBlock block budget hfound)
    · exact h.runBlock block budget hfound

theorem runTurns (budget turns : Nat) {r : Run} (hr : r.core.Tables present P) :
    (Core.runTurns budget turns r).core.Tables present P := by
  induction turns generalizing r with
  | zero => exact hr
  | succ turns ih =>
    rw [Core.runTurns]
    split
    · exact hr
    · dsimp only
      split
      · exact ih (h.advance _ hr)
      · exact h.advance _ hr

end Keeping

end Core

/-! ### Sessions in any address spaces -/

namespace Session

/-- Carry out commands, each in an address space of its own. -/
def playAcross (s : Session) (commands : List (Nat × Command)) : Session :=
  commands.foldl (fun s (k, command) ↦ (s.perform Core.run k command).2) s

variable {s : Session} {present : Bool} {P : BlockTable → Prop}

theorem tables_resume (hs : s.core.Tables present P) {k : Nat} {report : Core.Run → Report}
    {outcome : Except SchedulingError Core.Run}
    (houtcome : ∀ r, outcome = .ok r → r.core.Tables present P) :
    (s.resume k report outcome).2.core.Tables present P := by
  cases outcome with
  | error e => exact hs
  | ok r => exact houtcome r rfl

theorem tables_perform (h : Core.Keeping P) (hs : s.core.Tables present P) (k : Nat)
    (command : Command) : (s.perform Core.run k command).2.core.Tables present P := by
  cases command with
  | step =>
    refine tables_resume hs fun r hr ↦ ?_
    obtain ⟨_, m, _, rfl⟩ := Core.step_eq_ok.mp hr
    exact hs.of_blocks_eq (Core.blocks_stepOne _ _ _).1
  | run budget =>
    refine tables_resume hs fun r hr ↦ ?_
    obtain ⟨_, m, _, rfl⟩ := Core.run_eq_ok.mp hr
    exact h.runTurns budget budget hs
  | flush => exact (hs.map h.clear).of_blocks_eq rfl
  | host f => exact hs
  | act action => exact hs

theorem playAcross_keeps (h : Core.Keeping P) (commands : List (Nat × Command))
    (hs : s.core.Tables present P ∧ s.Coherent) :
    (s.playAcross commands).core.Tables present P ∧ (s.playAcross commands).Coherent := by
  induction commands generalizing s with
  | nil => exact hs
  | cons command commands ih =>
    exact ih ⟨tables_perform h hs.1 command.1 command.2, (hs.2.perform command.1 command.2).1⟩

/-- Whatever a core has been used for, in whatever address spaces and with whatever done to memory
in between: it has a table of blocks if it was set up so, and this is tidy. The instructions of each
of its blocks are bound to the handlers that they are dispatched to, and run by them as they are run
when each is dispatched; and if the block is valid in some address space of the machine, then
fetching and decoding there at the address of one of its instructions gives that instruction. -/
theorem tables_played (config : CoreConfig) (windows : Nat → MapWindow) (history : List Action)
    (t : Thread) (commands : List (Nat × Command)) :
    let s := playAcross ⟨.ofConfig config, t, (World.start windows).after history⟩ commands
    s.core.blocks.isSome = config.hotThreshold.isSome ∧
      ∀ table, s.core.blocks = some table →
        table.Tidy (max config.maxBlockLength 1) ∧
        ∀ (n : Nat) (b : Block), table.slots[n]? = some (.compiled b) →
          (∃ ops, b.ops? = some ops ∧ ops.map (·.instruction) = b.instructions ∧
            (∀ op ∈ ops, op.instruction.effect = .ok op.handler) ∧
            ∀ budget r, Core.runOps b ops budget r =
              Core.runInstructions b b.instructions budget r) ∧
          ∀ space : AddressSpace, b.isValid ⟨s.world.frames, space⟩ = true →
            ∀ i ∈ b.instructions, Core.read ⟨s.world.frames, space⟩ i.address = .ok i := by
  intro s
  have hkeeping : Core.Keeping fun table ↦ table.Tidy (max config.maxBlockLength 1) :=
    ⟨fun _ m a h ↦ h.lookup m a, fun _ a h ↦ (h.invalidate a).1,
      fun _ count h ↦ h.noteRetired count, fun _ h ↦ BlockTable.tidy_of_empty h.limit rfl rfl⟩
  have hstart : (Core.ofConfig config).Tables config.hotThreshold.isSome
      fun table ↦ table.Tidy (max config.maxBlockLength 1) := by
    refine ⟨Option.isSome_map, fun table htable ↦ ?_⟩
    obtain ⟨threshold, -, rfl⟩ := Option.map_eq_some_iff.mp htable
    exact BlockTable.tidy_of_empty rfl rfl rfl
  obtain ⟨htables, hlast⟩ := playAcross_keeps hkeeping commands
    ⟨hstart, coherent_start config windows history t⟩
  refine ⟨htables.isSome_eq, fun table htable ↦ ⟨htables.holds table htable, fun n b hb ↦
    ⟨((htables.holds table htable).blocks n b hb).exists_ops, fun space hvalid i hi ↦ ?_⟩⟩⟩
  have hstems : b.Stems s.world.frames := hlast.core.blocks table htable n b hb
  exact Core.read_of_decodes (Block.Stems.decodes (m := ⟨s.world.frames, space⟩) hstems hvalid hi)

end Session

end LongMode
