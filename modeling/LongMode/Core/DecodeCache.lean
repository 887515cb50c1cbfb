import LongMode.Decode.Decoder
import LongMode.Machine.Fault
import LongMode.Memory.CodeStamp

/-!
A memo of decoded instructions. Every address has one place in a table, found by a hash; an entry is
used only while the stamp of its bytes is the present one, so a store into code, a new mapping or a
change of permissions makes it stale. A table may have no places; looking one up is a panic then.
-/

set_option autoImplicit false
set_option relaxedAutoImplicit false

namespace LongMode

/-- What a decode cache has counted. -/
structure CacheStats where
  /-- Look-ups that found a current entry. -/
  hits : Nat := 0
  /-- Look-ups that found none. -/
  misses : Nat := 0
  /-- Look-ups that found an entry whose bytes had changed; they are misses too. -/
  stale : Nat := 0
  deriving DecidableEq, Repr

/-- A remembered instruction. -/
structure CacheEntry where
  /-- The stamp of its bytes when it was decoded. -/
  stamp : CodeStamp
  /-- The instruction; its address is the one it was decoded at. -/
  instruction : Instruction
  deriving DecidableEq, Repr

/-- A table of remembered instructions. -/
structure DecodeCache where
  /-- The number of places. -/
  length : BitVec 64
  /-- The entries by place. -/
  entries : Std.ExtTreeMap Nat CacheEntry := ∅
  /-- The counts. -/
  stats : CacheStats := {}

namespace DecodeCache

/-- The least power of two that is not below a number. -/
def leastPowerOfTwo (n : Nat) : Nat :=
  if n ≤ 1 then 1 else 1 <<< ((n - 1).log2 + 1)

/-- The number of places in a table for at least `entries` instructions: a power of two, as a 64-bit
number. -/
def tableLength (entries : Nat) : BitVec 64 :=
  BitVec.ofNat 64 (leastPowerOfTwo (max entries 1))

/-- An empty table for at least `entries` instructions. -/
def ofEntries (entries : Nat) : DecodeCache :=
  { length := tableLength entries }

/-- The hash of an address. -/
def hash (a : Address) : BitVec 64 :=
  let x := a * 0x9e3779b97f4a7c15
  x ^^^ x >>> 33

/-- The number of the place of an address. -/
def index (c : DecodeCache) (a : Address) : Nat :=
  (hash a &&& (c.length - 1)).toNat

/-- The number of the place of an address, if the table has that place. -/
def place (c : DecodeCache) (a : Address) : Except Panic Nat :=
  if c.index a < c.length.toNat then .ok (c.index a)
  else .error (.outOfRow (c.index a) c.length.toNat)

/-- Whether the bytes that an entry was decoded from are the present ones. -/
def isCurrent (e : CacheEntry) (m : Memory) (a : Address) : Bool :=
  match m.codeStamp a e.instruction.length with
  | .ok stamp => stamp == e.stamp
  | .error _ => false

/-- Count a miss. -/
def miss (c : DecodeCache) : DecodeCache :=
  { c with stats.misses := c.stats.misses + 1 }

/-- The instruction in a place, if it is that of an address and its bytes are unchanged. A stale
entry is dropped. -/
def examine (c : DecodeCache) (place : Nat) (m : Memory) (a : Address) :
    Option Instruction × DecodeCache :=
  match c.entries[place]? with
  | none => (none, c.miss)
  | some e =>
    if e.instruction.address ≠ a then (none, c.miss)
    else if isCurrent e m a then
      (some e.instruction, { c with stats.hits := c.stats.hits + 1 })
    else
      (none, { c.miss with
        entries := c.entries.erase place
        stats.stale := c.stats.stale + 1 })

/-- The remembered instruction of an address, if its bytes are unchanged. -/
def lookup (c : DecodeCache) (m : Memory) (a : Address) :
    Except Panic (Option Instruction × DecodeCache) := do
  let place ← c.place a
  return c.examine place m a

/-- Put an entry into a place. -/
def put (c : DecodeCache) (place : Nat) (entry : CacheEntry) : DecodeCache :=
  { c with entries := c.entries.insert place entry }

/-- Remember an instruction in the place of its address. -/
def insert (c : DecodeCache) (stamp : CodeStamp) (i : Instruction) : Except Panic DecodeCache := do
  let place ← c.place i.address
  return c.put place ⟨stamp, i⟩

/-- Forget every instruction; the counts stay. -/
def clear (c : DecodeCache) : DecodeCache :=
  { c with entries := ∅ }

end DecodeCache

end LongMode
