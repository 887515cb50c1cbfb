import LongMode.Core.DecodeCache

/-!
A decode cache as it is laid out: a row of places, each with an entry or without one. A place is
accessed by its number, and an access to a place that the row does not have is refused.
-/

set_option autoImplicit false
set_option relaxedAutoImplicit false

namespace LongMode

/-- The places of a decode cache, in a row. -/
structure CacheRow where
  /-- What is in each place. -/
  places : Array (Option CacheEntry)
  /-- The counts. -/
  stats : CacheStats := {}
  deriving DecidableEq, Repr

namespace CacheRow

/-- A row of empty places for at least `entries` instructions. -/
def ofEntries (entries : Nat) : CacheRow :=
  { places := Array.replicate (DecodeCache.tableLength entries).toNat none }

/-- The number of the place of an address. -/
def index (r : CacheRow) (a : Address) : Nat :=
  (DecodeCache.hash a &&& (BitVec.ofNat 64 r.places.size - 1)).toNat

/-- The place of an address. -/
def place (r : CacheRow) (a : Address) : Except Panic (Fin r.places.size) :=
  if h : r.index a < r.places.size then .ok ⟨r.index a, h⟩
  else .error (.outOfRow (r.index a) r.places.size)

/-- What is in a place. -/
def entry (r : CacheRow) (place : Fin r.places.size) : Option CacheEntry :=
  r.places[place]

/-- Put an entry into a place, or take out the one that is there. -/
def put (r : CacheRow) (place : Fin r.places.size) (entry : Option CacheEntry) : CacheRow :=
  { r with places := r.places.set place entry }

/-- Count a miss. -/
def miss (r : CacheRow) : CacheRow :=
  { r with stats.misses := r.stats.misses + 1 }

/-- The remembered instruction of an address, if its bytes are unchanged. A stale entry is
dropped. -/
def lookup (r : CacheRow) (m : Memory) (a : Address) :
    Except Panic (Option Instruction × CacheRow) := do
  let place ← r.place a
  match r.entry place with
  | none => .ok (none, r.miss)
  | some e =>
    if e.instruction.address ≠ a then .ok (none, r.miss)
    else if DecodeCache.isCurrent e m a then
      .ok (some e.instruction, { r with stats.hits := r.stats.hits + 1 })
    else
      .ok (none, { r.put place none with
        stats := { r.stats with stale := r.stats.stale + 1, misses := r.stats.misses + 1 } })

/-- Remember an instruction in the place of its address. -/
def insert (r : CacheRow) (stamp : CodeStamp) (i : Instruction) : Except Panic CacheRow := do
  let place ← r.place i.address
  .ok (r.put place (some ⟨stamp, i⟩))

/-- Forget every instruction; the counts stay. -/
def clear (r : CacheRow) : CacheRow :=
  { r with places := r.places.map fun _ => none }

end CacheRow

end LongMode
