import LongMode.Decode.Decoder
import LongMode.Machine.Execute
import LongMode.Memory.CodeStamp

/-!
Blocks of instructions that run in a row. An address that was entered often enough is compiled: the
straight run of instructions from it is decoded once and remembered with the stamps of the pages it
was read from. A block is used only while all its stamps are the present ones. An address where
nothing can be compiled is remembered too, until its page changes.
-/

set_option autoImplicit false
set_option relaxedAutoImplicit false

namespace LongMode

/-- What a table of blocks has counted. -/
structure BlockStats where
  /-- Blocks compiled. -/
  compiled : Nat := 0
  /-- Runs of blocks begun. -/
  runs : Nat := 0
  /-- Instructions completed in blocks. -/
  instructions : Nat := 0
  /-- Blocks dropped because their code changed. -/
  invalidations : Nat := 0
  /-- Places dropped to make room. -/
  evictions : Nat := 0
  deriving DecidableEq, Repr

/-- A straight run of instructions. -/
structure Block where
  /-- The address of the first instruction. -/
  entry : Address
  /-- The instructions in order. -/
  instructions : List Instruction
  /-- The pages that the instructions were read from, with their stamps. -/
  pages : List (Address × CodeStamp)
  deriving DecidableEq, Repr

/-- Whether a page has a given stamp at present. -/
def Memory.hasStamp (m : Memory) (page : Address) (stamp : CodeStamp) : Bool :=
  match m.codeStamp page 1 with
  | .ok present => present == stamp
  | .error _ => false

/-- Whether every page that a block was read from is unchanged. -/
def Block.isValid (b : Block) (m : Memory) : Bool :=
  b.pages.all fun (page, stamp) => m.hasStamp page stamp

/-! ### Compilation -/

namespace Block

/-- The number of bytes from its entry after which a block ends. -/
def maxSpan : Nat := 16 * pageSize

/-- The instruction at an address, if a block may hold it: it is decoded, executed, and not
locked. -/
def admissible? (m : Memory) (a : Address) : Option Instruction :=
  match m.fetch a Decode.maxLength with
  | .error _ => none
  | .ok (window, _) =>
    match decode .bits64 a window with
    | .error _ => none
    | .ok i => if i.prefixes.lock || i.effect.toOption.isNone then none else some i

/-- Add the stamp of a page, unless it is there already. -/
def addPage (m : Memory) (pages : List (Address × CodeStamp)) (page : Address) :
    Option (List (Address × CodeStamp)) :=
  if pages.any fun p => p.1 == page then some pages
  else
    match m.codeStamp page 1 with
    | .ok stamp => some (pages ++ [(page, stamp)])
    | .error _ => none

/-- Add the pages that hold an instruction. -/
def addPagesOf (m : Memory) (pages : List (Address × CodeStamp)) (i : Instruction) :
    Option (List (Address × CodeStamp)) := do
  let pages ← addPage m pages i.address.pageFloor
  addPage m pages (i.address + BitVec.ofNat 64 (i.length - 1)).pageFloor

/-- Whether a block ends with an instruction. -/
def endsWith (entry : Address) (i : Instruction) : Bool :=
  i.flow != .next || decide (maxSpan < (i.next - entry).toNat)

/-- The straight run from an address on, of at most `room` instructions, behind pages that are
stamped already. Fails if a page cannot be stamped. -/
def runFrom (m : Memory) (entry : Address) :
    (room : Nat) → (a : Address) → List (Address × CodeStamp) →
      Option (List Instruction × List (Address × CodeStamp))
  | 0, _, pages => some ([], pages)
  | room + 1, a, pages =>
    match admissible? m a with
    | none => some ([], pages)
    | some i => do
      let pages ← addPagesOf m pages i
      if endsWith entry i then some ([i], pages)
      else
        let (rest, pages) ← runFrom m entry room i.next pages
        some (i :: rest, pages)

/-- Compile the block at an address. Every instruction has a byte at least, so a block never has
more instructions than fit its span. -/
def compile? (m : Memory) (entry : Address) (maxLength : Nat) : Option Block := do
  let (instructions, pages) ← runFrom m entry (min maxLength (maxSpan + 1)) entry []
  if instructions.isEmpty then none else some ⟨entry, instructions, pages⟩

end Block

/-! ### The table of blocks -/

/-- What is known of an address. -/
inductive BlockSlot where
  /-- A block begins there. -/
  | compiled (block : Block)
  /-- Nothing can be compiled there while its page has this stamp. -/
  | rejected (stamp : CodeStamp)
  deriving DecidableEq, Repr

/-- The blocks of a core, and how often other addresses were entered. -/
structure BlockTable where
  /-- The number of entries that makes an address hot. -/
  threshold : Nat
  /-- The greatest number of instructions in a block. -/
  maxLength : Nat
  /-- Which address each eviction drops: its number among those that are known, where counting
  starts over behind the highest. Behind the end of the list it is the lowest one. -/
  victims : List Nat := []
  /-- How often addresses were entered. -/
  heat : Std.ExtTreeMap Nat Nat := ∅
  /-- What is known of hot addresses. -/
  slots : Std.ExtTreeMap Nat BlockSlot := ∅
  /-- The counts. -/
  stats : BlockStats := {}

namespace BlockTable

/-- The greatest number of addresses in each table. -/
def maxTracked : Nat := 4096

/-- An empty table. Threshold and block length are at least one. -/
def ofLimits (threshold maxLength : Nat) (victims : List Nat) : BlockTable :=
  { threshold := max threshold 1, maxLength := max maxLength 1, victims }

/-- Forget every block and every entry; the counts stay. -/
def clear (t : BlockTable) : BlockTable :=
  { t with heat := ∅, slots := ∅ }

/-- Drop what is known of an address because its code changed. -/
def invalidate (t : BlockTable) (entry : Address) : BlockTable :=
  if t.slots.contains entry.toNat then
    { t with
      slots := t.slots.erase entry.toNat
      heat := t.heat.erase entry.toNat
      stats.invalidations := t.stats.invalidations + 1 }
  else t

/-- The address that the next eviction drops. -/
def victim? (t : BlockTable) : Option Nat :=
  t.slots.keys[t.victims.getD t.stats.evictions 0 % t.slots.size]?

/-- Make room for an address in the table of blocks: a full table drops another one. -/
def evict (t : BlockTable) (entry : Address) : BlockTable :=
  if maxTracked ≤ t.slots.size ∧ !t.slots.contains entry.toNat then
    match t.victim? with
    | some victim =>
      { t with
        slots := t.slots.erase victim
        stats.evictions := t.stats.evictions + 1 }
    | none => t
  else t

/-- Remember what is known of an address, which is no longer counted. -/
def insertSlot (t : BlockTable) (entry : Address) (slot : BlockSlot) : BlockTable :=
  let t := { t with heat := t.heat.erase entry.toNat }.evict entry
  { t with slots := t.slots.insert entry.toNat slot }

/-- Count an entry of an address. A full table of counts starts over. -/
def warm (t : BlockTable) (a : Address) : BlockTable :=
  let heat :=
    if maxTracked ≤ t.heat.size ∧ !t.heat.contains a.toNat then ∅ else t.heat
  { t with heat := heat.insert a.toNat (heat.getD a.toNat 0 + 1) }

/-- Compile an address that has become hot. -/
def compileAt (t : BlockTable) (m : Memory) (a : Address) : Option Block × BlockTable :=
  match Block.compile? m a t.maxLength with
  | some block =>
    let t := { t with
      stats.compiled := t.stats.compiled + 1
      stats.runs := t.stats.runs + 1 }
    (some block, t.insertSlot a (.compiled block))
  | none =>
    match m.codeStamp a.pageFloor 1 with
    | .ok stamp => (none, t.insertSlot a (.rejected stamp))
    | .error _ => (none, t)

/-- Count an entry of an address about which nothing current is known, and compile it if it is
hot. -/
def enter (t : BlockTable) (m : Memory) (a : Address) : Option Block × BlockTable :=
  let t := t.warm a
  if t.heat.getD a.toNat 0 < t.threshold then (none, t) else t.compileAt m a

/-- The valid block at an address, compiled now if the address has become hot. -/
def lookup (t : BlockTable) (m : Memory) (a : Address) : Option Block × BlockTable :=
  match t.slots[a.toNat]? with
  | some (.compiled block) =>
    if block.isValid m then
      (some block, { t with stats.runs := t.stats.runs + 1 })
    else (t.invalidate a).enter m a
  | some (.rejected stamp) =>
    if m.hasStamp a.pageFloor stamp then (none, t)
    else { t with slots := t.slots.erase a.toNat }.enter m a
  | none => t.enter m a

/-- Count instructions completed in a block. -/
def noteRetired (t : BlockTable) (count : Nat) : BlockTable :=
  { t with stats.instructions := t.stats.instructions + count }

end BlockTable

end LongMode
