import LongMode.Proofs.Core.Coherence

/-!
Cores in contention. While a core fetches, remembers, compiles and checks code, other threads store
to memory: before each call that the core makes to an address space there may be any stores through
any of the address spaces of the machine (`Contention.turn`), and a single call sees memory at one
moment (`Contended.look`). The operations of a core are taken apart into such calls, with nothing
else changed: while no other thread stores, they are the operations of `LongMode.Core`
(`Contended.fetch_quiet`, `Contended.lookup_quiet`).

Two things are written down on the way that no core looks at. One is what was found current, in what
memory (`Acceptance`). The other is which blocks were torn: of such a block memory no longer had
some instruction when the pages of the instruction had been stamped.
-/

set_option autoImplicit false
set_option relaxedAutoImplicit false

namespace LongMode

/-! ### Stores of other threads -/

/-- Whether a request is a store. -/
def Request.isStore : Request → Bool
  | write .. | poke .. | writeNat .. | update .. => true
  | _ => false

/-- A store of another thread. -/
structure ForeignStore where
  /-- The address space that it goes through. -/
  space : Nat
  /-- The request. -/
  request : Request
  /-- It is a store. -/
  isStore : request.isStore = true

/-- A store of another thread as something that happens to memory. -/
def ForeignStore.action (store : ForeignStore) : Action :=
  .request store.space store.request

/-- Something that a core found to be current. -/
inductive Acceptance where
  /-- The decode cache gave out an instruction while memory was this. -/
  | cached (m : Memory) (i : Instruction)
  /-- A block was found valid by a check that began in one memory and ended in another one. The
  block was torn or not. -/
  | block (began ended : Memory) (b : Block) (torn : Bool)

/-- The memory of a machine in which other threads store, and what a core did there. -/
structure Contention where
  /-- The memory. -/
  world : World
  /-- The stores of other threads that are to come: those before the next call of the core, those
  between it and the call after it, and so on. -/
  foreign : List (List ForeignStore)
  /-- What was found current, latest first. -/
  accepted : List Acceptance := []
  /-- The torn blocks, latest first. -/
  torn : List Block := []

/-- Other threads store until the core gets to its next call. -/
def Contention.turn (s : Contention) : Contention :=
  match s.foreign with
  | [] => s
  | stores :: foreign =>
    { s with world := s.world.after (stores.map ForeignStore.action), foreign }

/-! ### The operations of a core -/

/-- What a core does while other threads store. -/
abbrev Contended : Type → Type :=
  StateM Contention

/-- An instruction that was fetched to be compiled, and whether memory still had it when its pages
had been stamped. -/
structure Sample where
  /-- The instruction. -/
  instruction : Instruction
  /-- Whether memory still had it. -/
  held : Bool

namespace Contended

/-- Make one call to an address space. -/
def look {α : Type} (k : Nat) (call : Memory → α) : Contended α := do
  modify Contention.turn
  return call ((← get).world.memory k)

/-- The memory of the moment, for the record. -/
def present (k : Nat) : Contended Memory :=
  return (← get).world.memory k

/-- Fetch and decode the instruction at an address, as `Core.fetch`. -/
def fetch (k : Nat) (c : Core) (a : Address) :
    Contended (Except FetchFailure Instruction × Core) := do
  match ← look k (c.lookup · a) with
  | .error p => return (.error (.panic p), c)
  | .ok (some i, c) =>
    let m ← present k
    modify fun s => { s with accepted := .cached m i :: s.accepted }
    return (.ok i, c)
  | .ok (none, c) =>
    match ← look k (·.fetch a Decode.maxLength) with
    | .error fault => return (.error (.fault fault), c)
    | .ok (window, stamp) =>
      match decode .bits64 a window with
      | .ok i => return c.keep (stamp.restrict a i.length) i
      | .error error =>
        let failure ← look k (Core.failure · a window error)
        return (.error failure, c)

/-- Check the pages of a block one after the other, as `Block.isValid`. -/
def check (k : Nat) (b : Block) : Contended Bool := do
  let began ← present k
  let current ← b.pages.allM fun (page, stamp) => look k (·.hasStamp page stamp)
  if current then
    let ended ← present k
    modify fun s =>
      { s with accepted := .block began ended b (decide (b ∈ s.torn)) :: s.accepted }
  return current

/-- Add the pages that hold an instruction, as `Block.addPagesOf`. -/
def addPagesOf (k : Nat) (pages : List (Address × CodeStamp)) (i : Instruction) :
    Contended (Option (List (Address × CodeStamp))) := do
  match ← look k (Block.addPage · pages i.address.pageFloor) with
  | none => return none
  | some pages =>
    look k (Block.addPage · pages (i.address + BitVec.ofNat 64 (i.length - 1)).pageFloor)

/-- The straight run from an address on, as `Block.runFrom`. -/
def runFrom (k : Nat) (entry : Address) : (room : Nat) → (a : Address) →
    List (Address × CodeStamp) → Contended (Option (List Sample × List (Address × CodeStamp)))
  | 0, _, pages => return some ([], pages)
  | room + 1, a, pages => do
    match ← look k (Block.admissible? · a) with
    | none => return some ([], pages)
    | some i =>
      match ← addPagesOf k pages i with
      | none => return none
      | some pages =>
        let m ← present k
        let sample : Sample := ⟨i, decide (Core.read m i.address = .ok i)⟩
        if Block.endsWith entry i then return some ([sample], pages)
        else
          match ← runFrom k entry room i.next pages with
          | none => return none
          | some (rest, pages) => return some (sample :: rest, pages)

/-- Compile the block at an address, as `Block.compile?`. -/
def compile? (k : Nat) (entry : Address) (maxLength : Nat) : Contended (Option Block) := do
  match ← runFrom k entry (min maxLength (Block.maxSpan + 1)) entry [] with
  | none => return none
  | some (samples, pages) =>
    if samples.isEmpty then return none
    else
      let block : Block := ⟨entry, samples.map (·.instruction), pages⟩
      if samples.any (!·.held) then
        modify fun s => { s with torn := block :: s.torn }
      return some block

/-- Compile an address that has become hot, as `BlockTable.compileAt`. -/
def compileAt (k : Nat) (t : BlockTable) (a : Address) :
    Contended (Option Block × BlockTable) := do
  match ← compile? k a t.maxLength with
  | some block =>
    let t := { t with
      stats.compiled := t.stats.compiled + 1
      stats.runs := t.stats.runs + 1 }
    return (some block, t.insertSlot a (.compiled block))
  | none =>
    match ← look k (·.codeStamp a.pageFloor 1) with
    | .ok stamp => return (none, t.insertSlot a (.rejected stamp))
    | .error _ => return (none, t)

/-- Count an entry of an address, and compile it if it is hot, as `BlockTable.enter`. -/
def enter (k : Nat) (t : BlockTable) (a : Address) : Contended (Option Block × BlockTable) := do
  let t := t.warm a
  if t.heat.getD a.toNat 0 < t.threshold then return (none, t) else compileAt k t a

/-- The valid block at an address, as `BlockTable.lookup`. -/
def lookup (k : Nat) (t : BlockTable) (a : Address) :
    Contended (Option Block × BlockTable) := do
  match t.slots[a.toNat]? with
  | some (.compiled block) =>
    if ← check k block then
      return (some block, { t with stats.runs := t.stats.runs + 1 })
    else enter k (t.invalidate a) a
  | some (.rejected stamp) =>
    if ← look k (·.hasStamp a.pageFloor stamp) then return (none, t)
    else enter k { t with slots := t.slots.erase a.toNat } a
  | none => enter k t a

end Contended

/-- Something that a core does with code, or that is done to memory in the meantime. -/
inductive Duty where
  /-- An instruction is fetched through address space `k`. -/
  | fetch (k : Nat) (a : Address)
  /-- The table is asked for a block to run. -/
  | enter (k : Nat) (a : Address)
  /-- The block at an address is checked again, as it is behind each of its instructions that
  stored. -/
  | recheck (k : Nat) (a : Address)
  /-- The core forgets what it remembers. -/
  | flush
  /-- Something happens to memory, as when an instruction is executed. -/
  | act (action : Action)

/-- Do what a core does. -/
def Duty.perform (c : Core) : Duty → Contended Core
  | .fetch k a => return (← Contended.fetch k c a).2
  | .enter k a =>
    match c.blocks with
    | none => return c
    | some t => return { c with blocks := some (← Contended.lookup k t a).2 }
  | .recheck k a =>
    match c.blocks with
    | none => return c
    | some t =>
      match t.slots[a.toNat]? with
      | some (.compiled block) => do
        if ← Contended.check k block then return c
        else return { c with blocks := some (t.invalidate block.entry) }
      | _ => return c
  | .flush => return c.flush
  | .act action => do
    modify fun s => { s with world := (s.world.step action).2 }
    return c

/-! ### Nobody else -/

theorem Contention.turn_quiet {s : Contention} (h : s.foreign = []) : s.turn = s := by
  rw [turn, h]

namespace Contended

variable {α β : Type} {s : Contention} {k : Nat} {a : Address}

theorem run_bind (c : Contended α) (f : α → Contended β) :
    (c >>= f).run s = (f (c.run s).1).run (c.run s).2 := rfl

theorem run_present : (present k).run s = (s.world.memory k, s) := rfl

theorem run_look_quiet (h : s.foreign = []) (call : Memory → α) :
    (look k call).run s = (call (s.world.memory k), s) := by
  change (call (s.turn.world.memory k), s.turn) = _
  rw [Contention.turn_quiet h]

theorem addPagesOf_quiet (h : s.foreign = []) (pages : List (Address × CodeStamp))
    (i : Instruction) :
    (addPagesOf k pages i).run s = (Block.addPagesOf (s.world.memory k) pages i, s) := by
  rw [addPagesOf, run_bind, run_look_quiet h, Block.addPagesOf]
  cases Block.addPage (s.world.memory k) pages i.address.pageFloor with
  | none => rfl
  | some pages => exact run_look_quiet h _

/-- While nobody else stores, memory still has each instruction when its pages have been stamped. -/
theorem runFrom_quiet (h : s.foreign = []) (entry : Address) (room : Nat) (a : Address)
    (pages : List (Address × CodeStamp)) :
    (runFrom k entry room a pages).run s =
      ((Block.runFrom (s.world.memory k) entry room a pages).map fun found ↦
        (found.1.map (⟨·, true⟩), found.2), s) := by
  induction room generalizing a pages with
  | zero => rfl
  | succ room ih =>
    rw [runFrom, run_bind, run_look_quiet h, Block.runFrom]
    cases hadmissible : Block.admissible? (s.world.memory k) a with
    | none => rfl
    | some i =>
      dsimp only
      rw [run_bind, addPagesOf_quiet h]
      cases Block.addPagesOf (s.world.memory k) pages i with
      | none => rfl
      | some pages =>
        have hheld : decide (Core.read (s.world.memory k) i.address = .ok i) = true :=
          decide_eq_true (Core.read_of_decodes (Block.decodes_of_admissible? hadmissible))
        dsimp only
        rw [run_bind, run_present]
        dsimp only
        rw [hheld]
        by_cases hends : Block.endsWith entry i = true
        · simp only [hends, if_true]
          rfl
        · simp only [hends, Bool.false_eq_true, if_false]
          rw [run_bind, ih]
          simp only [Option.bind_eq_bind, Option.bind_some]
          cases Block.runFrom (s.world.memory k) entry room i.next pages with
          | none => rfl
          | some found => rfl

theorem compile?_quiet (h : s.foreign = []) (entry : Address) (maxLength : Nat) :
    (compile? k entry maxLength).run s =
      (Block.compile? (s.world.memory k) entry maxLength, s) := by
  rw [compile?, run_bind, runFrom_quiet h, Block.compile?]
  cases Block.runFrom (s.world.memory k) entry (min maxLength (Block.maxSpan + 1)) entry [] with
  | none => rfl
  | some found =>
    obtain ⟨instructions, pages⟩ := found
    have hwhole : (instructions.map (Sample.mk · true)).any (!·.held) = false := by
      simp
    have hinstructions : (instructions.map (Sample.mk · true)).map (·.instruction) =
        instructions := by
      rw [List.map_map]
      exact List.map_id instructions
    cases instructions with
    | nil => rfl
    | cons i rest =>
      simp only [Option.map_some, hwhole, hinstructions]
      rfl

theorem compileAt_quiet (h : s.foreign = []) (t : BlockTable) (a : Address) :
    (compileAt k t a).run s = (t.compileAt (s.world.memory k) a, s) := by
  rw [compileAt, run_bind, compile?_quiet h, BlockTable.compileAt]
  cases Block.compile? (s.world.memory k) a t.maxLength with
  | some block => rfl
  | none =>
    dsimp only
    rw [run_bind, run_look_quiet h]
    cases (s.world.memory k).codeStamp a.pageFloor 1 with
    | error fault => rfl
    | ok stamp => rfl

theorem enter_quiet (h : s.foreign = []) (t : BlockTable) (a : Address) :
    (enter k t a).run s = (t.enter (s.world.memory k) a, s) := by
  rw [enter, BlockTable.enter]
  split
  · rfl
  · exact compileAt_quiet h _ a

theorem allM_look_quiet (h : s.foreign = []) (pages : List (Address × CodeStamp)) :
    (pages.allM fun (page, stamp) ↦ look k (·.hasStamp page stamp)).run s =
      (pages.all fun (page, stamp) ↦ (s.world.memory k).hasStamp page stamp, s) := by
  induction pages with
  | nil => rfl
  | cons page rest ih =>
    rw [List.allM, run_bind, run_look_quiet h, List.all_cons]
    dsimp only
    cases (s.world.memory k).hasStamp page.1 page.2 with
    | false => rfl
    | true => exact ih

/-- A check of a block that nobody disturbs is the check of the block. -/
theorem check_quiet (h : s.foreign = []) (b : Block) :
    ∃ accepted, (check k b).run s = (b.isValid (s.world.memory k), { s with accepted }) := by
  rw [check, run_bind, run_present]
  dsimp only
  rw [run_bind, allM_look_quiet h]
  rw [← Block.isValid]
  cases b.isValid (s.world.memory k) with
  | false => exact ⟨s.accepted, rfl⟩
  | true => exact ⟨_, rfl⟩

/-- While no other thread stores, a block is looked up as it is without other threads. -/
theorem lookup_quiet (h : s.foreign = []) (t : BlockTable) (a : Address) :
    ∃ accepted, (lookup k t a).run s =
      (t.lookup (s.world.memory k) a, { s with accepted }) := by
  rw [lookup, BlockTable.lookup]
  cases t.slots[a.toNat]? with
  | none => exact ⟨s.accepted, enter_quiet h t a⟩
  | some slot =>
    cases slot with
    | compiled block =>
      obtain ⟨accepted, hcheck⟩ := check_quiet (k := k) h block
      dsimp only
      rw [run_bind, hcheck]
      cases block.isValid (s.world.memory k) with
      | true => exact ⟨accepted, rfl⟩
      | false => exact ⟨accepted, enter_quiet (s := { s with accepted }) h _ a⟩
    | rejected stamp =>
      dsimp only
      rw [run_bind, run_look_quiet h]
      cases (s.world.memory k).hasStamp a.pageFloor stamp with
      | true => exact ⟨s.accepted, rfl⟩
      | false => exact ⟨s.accepted, enter_quiet h _ a⟩

/-- While no other thread stores, an instruction is fetched as it is without other threads. -/
theorem fetch_quiet (h : s.foreign = []) (c : Core) (a : Address) :
    ∃ accepted, (fetch k c a).run s = (c.fetch (s.world.memory k) a, { s with accepted }) := by
  rw [fetch, run_bind, run_look_quiet h, Core.fetch]
  cases c.lookup (s.world.memory k) a with
  | error p => exact ⟨s.accepted, rfl⟩
  | ok answer =>
    obtain ⟨found, c'⟩ := answer
    cases found with
    | some i => exact ⟨_, rfl⟩
    | none =>
      dsimp only
      rw [run_bind, run_look_quiet h]
      cases (s.world.memory k).fetch a Decode.maxLength with
      | error fault => exact ⟨s.accepted, rfl⟩
      | ok fetched =>
        dsimp only
        cases decode .bits64 a fetched.1 with
        | ok i => exact ⟨s.accepted, rfl⟩
        | error error =>
          dsimp only
          rw [run_bind, run_look_quiet h]
          exact ⟨s.accepted, rfl⟩

end Contended

end LongMode
