import Mathlib.Algebra.Group.Nat.Defs
import LongMode.Core.Basic
import LongMode.Proofs.Outcomes

/-!
Places of a decode cache. The length of a table is a power of two, and up to 2^63 entries it does
not wrap: then the table has a place for every address (`DecodeCache.place_of_pos`). Above, the
length wraps to zero, and no address has a place (`DecodeCache.place_of_length_eq_zero`).

A core whose cache has places (`Core.Placed`) looks up and remembers without a panic, and keeps the
places when it fetches (`Core.Placed.fetch`). What a fetch can come to at all is said once
(`Core.Fetches`).
-/

set_option autoImplicit false
set_option relaxedAutoImplicit false

namespace LongMode

namespace DecodeCache

/-! ### The length of a table -/

section Length

variable {n k : Nat}

theorem exists_leastPowerOfTwo_eq (n : Nat) : ∃ k, leastPowerOfTwo n = 2 ^ k := by
  rw [leastPowerOfTwo]
  split
  · exact ⟨0, rfl⟩
  · exact ⟨_, Nat.one_shiftLeft _⟩

theorem le_leastPowerOfTwo (n : Nat) : n ≤ leastPowerOfTwo n := by
  rw [leastPowerOfTwo]
  split
  next hone => exact hone
  next =>
    have hlt : n - 1 < 2 ^ ((n - 1).log2 + 1) := Nat.lt_log2_self
    rw [Nat.one_shiftLeft]
    omega

theorem leastPowerOfTwo_le (h : n ≤ 2 ^ k) : leastPowerOfTwo n ≤ 2 ^ k := by
  rw [leastPowerOfTwo]
  split
  · exact Nat.one_le_two_pow
  next hone =>
    have hlog : (n - 1).log2 < k := (Nat.log2_lt (by omega)).mpr (by omega)
    rw [Nat.one_shiftLeft]
    exact Nat.pow_le_pow_right (by decide) hlog

/-- Up to 2^63 the length does not wrap. -/
theorem toNat_tableLength (hpos : n ≠ 0) (h : n ≤ 2 ^ 63) :
    (tableLength n).toNat = leastPowerOfTwo n := by
  have hlt : leastPowerOfTwo n < 2 ^ 64 :=
    Nat.lt_of_le_of_lt (leastPowerOfTwo_le h) (by decide)
  rw [tableLength, Nat.max_eq_left (by omega), BitVec.toNat_ofNat, Nat.mod_eq_of_lt hlt]

/-- Above 2^63 the least power of two is 2^64, which wraps to zero. -/
theorem tableLength_eq_zero (hlow : 2 ^ 63 < n) (hhigh : n ≤ 2 ^ 64) : tableLength n = 0 := by
  have hleast : leastPowerOfTwo n = 2 ^ 64 := by
    obtain ⟨k, hk⟩ := exists_leastPowerOfTwo_eq n
    have hgreater : 2 ^ 63 < 2 ^ k := hk ▸ Nat.lt_of_lt_of_le hlow (le_leastPowerOfTwo n)
    have hk63 : 63 < k := (Nat.pow_lt_pow_iff_right (by decide)).mp hgreater
    refine Nat.le_antisymm (leastPowerOfTwo_le hhigh) ?_
    rw [hk]
    exact Nat.pow_le_pow_right (by decide) hk63
  rw [tableLength, Nat.max_eq_left (by omega), hleast]
  decide

end Length

variable {c c' : DecodeCache} {m : Memory} {a : Address} {found : Option Instruction}

/-! ### Places -/

/-- The place of an address depends on the length alone. -/
theorem index_congr (h : c'.length = c.length) (a : Address) : c'.index a = c.index a := by
  rw [index, index, h]

/-- A table with places has one for every address. -/
theorem index_lt (h : 0 < c.length.toNat) (a : Address) : c.index a < c.length.toNat := by
  have hone : 1#64 ≤ c.length := h
  have hle : c.index a ≤ c.length.toNat - 1 := by
    rw [index, BitVec.toNat_and]
    refine Nat.le_trans Nat.and_le_right (Nat.le_of_eq ?_)
    exact BitVec.toNat_sub_of_le hone
  omega

theorem place_of_pos (h : 0 < c.length.toNat) (a : Address) : c.place a = .ok (c.index a) :=
  if_pos (index_lt h a)

/-- A table without places has none for any address. -/
theorem place_of_length_eq_zero (h : c.length = 0) (a : Address) :
    c.place a = .error (.outOfRow (hash a).toNat 0) := by
  have hindex : c.index a = (hash a).toNat := by
    rw [index, h]
    exact congrArg BitVec.toNat BitVec.and_allOnes
  have hzero : c.length.toNat = 0 := congrArg BitVec.toNat h
  rw [place, hzero, if_neg (Nat.not_lt_zero _), hindex]

/-- An address has no place but its own, and that only in a table with places. -/
theorem place_eq_ok_iff {place : Nat} :
    c.place a = .ok place ↔ 0 < c.length.toNat ∧ place = c.index a := by
  constructor
  · intro h
    rw [DecodeCache.place] at h
    split at h
    next hlt => exact ⟨by omega, (Except.ok.inj h).symm⟩
    next => cases h
  · rintro ⟨hpos, rfl⟩
    exact place_of_pos hpos a

/-- What is done at the place of an address is done at its own place, and only in a table with
places. -/
theorem bind_place_eq_ok_iff {α : Type} {f : Nat → α} {answer : α} :
    (do return f (← c.place a)) = .ok answer ↔ 0 < c.length.toNat ∧ answer = f (c.index a) := by
  constructor
  · intro h
    obtain ⟨place, hplace, hdone⟩ := exists_ok_of_bind h
    obtain ⟨hpos, rfl⟩ := place_eq_ok_iff.mp hplace
    exact ⟨hpos, (Except.ok.inj hdone).symm⟩
  · rintro ⟨hpos, rfl⟩
    rw [place_of_pos hpos]
    rfl

/-- A look-up that is not refused examines the place of its address. -/
theorem lookup_eq_ok_iff {answer : Option Instruction × DecodeCache} :
    c.lookup m a = .ok answer ↔ 0 < c.length.toNat ∧ answer = c.examine (c.index a) m a := by
  rw [lookup]
  exact bind_place_eq_ok_iff

/-- What is remembered is put into the place of its address. -/
theorem insert_eq_ok_iff {stamp : CodeStamp} {i : Instruction} :
    c.insert stamp i = .ok c' ↔ 0 < c.length.toNat ∧ c' = c.put (c.index i.address) ⟨stamp, i⟩ := by
  rw [insert]
  exact bind_place_eq_ok_iff

theorem lookup_of_pos (h : 0 < c.length.toNat) (m : Memory) (a : Address) :
    c.lookup m a = .ok (c.examine (c.index a) m a) :=
  lookup_eq_ok_iff.mpr ⟨h, rfl⟩

theorem insert_of_pos (h : 0 < c.length.toNat) (stamp : CodeStamp) (i : Instruction) :
    c.insert stamp i = .ok (c.put (c.index i.address) ⟨stamp, i⟩) :=
  insert_eq_ok_iff.mpr ⟨h, rfl⟩

/-- Looking up leaves the length alone. -/
theorem length_examine (c : DecodeCache) (place : Nat) (m : Memory) (a : Address) :
    (c.examine place m a).2.length = c.length := by
  rw [examine]
  split
  · rfl
  · split
    · rfl
    · split
      · rfl
      · rfl

theorem length_of_lookup (h : c.lookup m a = .ok (found, c')) :
    0 < c.length.toNat ∧ c'.length = c.length := by
  obtain ⟨hpos, hexamine⟩ := lookup_eq_ok_iff.mp h
  have hlength := c.length_examine (c.index a) m a
  rw [← hexamine] at hlength
  exact ⟨hpos, hlength⟩

/-- A look-up examines the entry in the place of its address. -/
theorem examine_of_entry {stamp : CodeStamp} {i : Instruction}
    (h : c.entries[c.index i.address]? = some ⟨stamp, i⟩) (m : Memory) :
    c.examine (c.index i.address) m i.address =
      if isCurrent ⟨stamp, i⟩ m i.address then
        (some i, { c with stats.hits := c.stats.hits + 1 })
      else
        (none, { c with
          entries := c.entries.erase (c.index i.address)
          stats.stale := c.stats.stale + 1
          stats.misses := c.stats.misses + 1 }) := by
  rw [examine, h]
  simp only [ne_eq, not_true_eq_false, if_false]
  rfl

end DecodeCache

namespace Core

variable {c c' : Core} {m : Memory} {a : Address} {found : Option Instruction}
  {stamp : CodeStamp} {i : Instruction}

/-! ### Cores -/

/-- A core without a decode cache finds nothing; any other asks its cache. -/
theorem lookup_eq_ok (h : c.lookup m a = .ok (found, c')) :
    (c.cache = none ∧ found = none ∧ c' = c) ∨
      ∃ cache cache', c.cache = some cache ∧ cache.lookup m a = .ok (found, cache') ∧
        c' = { c with cache := some cache' } := by
  rw [lookup] at h
  cases hcache : c.cache with
  | none =>
    rw [hcache, Except.ok.injEq, Prod.mk.injEq] at h
    exact .inl ⟨rfl, h.1.symm, h.2.symm⟩
  | some cache =>
    rw [hcache] at h
    obtain ⟨⟨found', cache'⟩, hlookup, hdone⟩ := exists_ok_of_bind h
    obtain ⟨rfl, rfl⟩ := Prod.mk.inj (Except.ok.inj hdone)
    exact .inr ⟨cache, cache', rfl, hlookup, rfl⟩

/-- A core without a decode cache remembers nothing; any other does so in its cache. -/
theorem remember_eq_ok (h : c.remember stamp i = .ok c') :
    (c.cache = none ∧ c' = c) ∨
      ∃ cache cache', c.cache = some cache ∧ cache.insert stamp i = .ok cache' ∧
        c' = { c with cache := some cache' } := by
  rw [remember] at h
  cases hcache : c.cache with
  | none =>
    rw [hcache, Except.ok.injEq] at h
    exact .inl ⟨rfl, h.symm⟩
  | some cache =>
    rw [hcache] at h
    obtain ⟨cache', hinsert, hdone⟩ := exists_ok_of_bind h
    obtain rfl := Except.ok.inj hdone
    exact .inr ⟨cache, cache', rfl, hinsert, rfl⟩

/-- Looking up and remembering change the decode cache only. -/
theorem blocks_lookup (h : c.lookup m a = .ok (found, c')) :
    c'.blocks = c.blocks ∧ c'.tracing = c.tracing := by
  obtain ⟨-, -, rfl⟩ | ⟨cache, cache', -, -, rfl⟩ := lookup_eq_ok h
  · exact ⟨rfl, rfl⟩
  · exact ⟨rfl, rfl⟩

theorem blocks_remember (h : c.remember stamp i = .ok c') :
    c'.blocks = c.blocks ∧ c'.tracing = c.tracing := by
  obtain ⟨-, rfl⟩ | ⟨cache, cache', -, -, rfl⟩ := remember_eq_ok h
  · exact ⟨rfl, rfl⟩
  · exact ⟨rfl, rfl⟩

/-- The decode cache of a core, if there is one, has places. -/
def Placed (c : Core) : Prop :=
  ∀ cache : DecodeCache, c.cache = some cache → 0 < cache.length.toNat

/-- The decode cache for at most 2^63 instructions has places. -/
theorem placed_ofConfig {config : CoreConfig} (h : config.cacheEntries ≤ 2 ^ 63) :
    (ofConfig config).Placed := by
  intro cache hcache
  simp only [ofConfig] at hcache
  split at hcache
  · cases hcache
  next hentries =>
    obtain rfl := Option.some.inj hcache
    obtain ⟨k, hk⟩ := DecodeCache.exists_leastPowerOfTwo_eq config.cacheEntries
    change 0 < (DecodeCache.tableLength config.cacheEntries).toNat
    rw [DecodeCache.toNat_tableLength hentries h, hk]
    exact Nat.two_pow_pos k

theorem Placed.of_cache_eq (h : c.Placed) (hcache : c'.cache = c.cache) : c'.Placed :=
  fun cache hsome ↦ h cache (hcache ▸ hsome)

theorem Placed.flush (h : c.Placed) : c.flush.Placed := by
  intro cache hcache
  obtain ⟨before, hbefore, rfl⟩ := Option.map_eq_some_iff.mp hcache
  exact h before hbefore

/-- A look-up that is not refused finds places, and leaves them. -/
theorem placed_of_lookup (h : c.lookup m a = .ok (found, c')) : c'.Placed := by
  obtain ⟨hnone, -, rfl⟩ | ⟨cache, cache', -, hlookup, rfl⟩ := lookup_eq_ok h
  · intro cache hcache
    rw [hnone] at hcache
    cases hcache
  · intro cache'' hcache
    obtain ⟨hpos, hlength⟩ := DecodeCache.length_of_lookup hlookup
    rw [← Option.some.inj hcache, hlength]
    exact hpos

theorem placed_of_remember (h : c.remember stamp i = .ok c') : c'.Placed := by
  obtain ⟨hnone, rfl⟩ | ⟨cache, cache', -, hinsert, rfl⟩ := remember_eq_ok h
  · intro cache hcache
    rw [hnone] at hcache
    cases hcache
  · intro cache'' hcache
    obtain ⟨hpos, hkept⟩ := DecodeCache.insert_eq_ok_iff.mp hinsert
    rw [← Option.some.inj hcache, hkept]
    exact hpos

/-- A core with places looks up every address. -/
theorem Placed.exists_lookup (h : c.Placed) (m : Memory) (a : Address) :
    ∃ found c', c.lookup m a = .ok (found, c') := by
  rw [lookup]
  cases hcache : c.cache with
  | none => exact ⟨none, c, rfl⟩
  | some cache =>
    dsimp only
    have hlookup := DecodeCache.lookup_of_pos (h cache hcache) m a
    generalize cache.examine (cache.index a) m a = answer at hlookup
    rw [hlookup]
    exact ⟨answer.1, { c with cache := some answer.2 }, rfl⟩

/-- A core with places remembers every instruction. -/
theorem Placed.exists_remember (h : c.Placed) (stamp : CodeStamp) (i : Instruction) :
    ∃ c', c.remember stamp i = .ok c' := by
  rw [remember]
  cases hcache : c.cache with
  | none => exact ⟨c, rfl⟩
  | some cache =>
    dsimp only
    rw [DecodeCache.insert_of_pos (h cache hcache)]
    exact ⟨{ c with cache := some (cache.put _ ⟨stamp, i⟩) }, rfl⟩

/-! ### Fetching -/

/-- What a fetch can come to: the decode cache refuses the address, it has the instruction, or the
instruction is not in it and is fetched from memory, decoded and remembered, as far as that goes. -/
inductive Fetches (c : Core) (m : Memory) (a : Address) :
    Except FetchFailure Instruction × Core → Prop where
  | refused (p : Panic) : c.lookup m a = .error p → Fetches c m a (.error (.panic p), c)
  | hit (i : Instruction) (c' : Core) : c.lookup m a = .ok (some i, c') → Fetches c m a (.ok i, c')
  | faulted (c' : Core) (fault : MemoryFault) : c.lookup m a = .ok (none, c') →
    m.fetch a Decode.maxLength = .error fault → Fetches c m a (.error (.fault fault), c')
  | undecoded (c' : Core) (window : List UInt8) (stamp : CodeStamp) (error : DecodeError) :
    c.lookup m a = .ok (none, c') → m.fetch a Decode.maxLength = .ok (window, stamp) →
    decode .bits64 a window = .error error → Fetches c m a (.error (failure m a window error), c')
  | read (c' c'' : Core) (window : List UInt8) (stamp : CodeStamp) (i : Instruction) :
    c.lookup m a = .ok (none, c') → m.fetch a Decode.maxLength = .ok (window, stamp) →
    decode .bits64 a window = .ok i → c'.remember (stamp.restrict a i.length) i = .ok c'' →
    Fetches c m a (.ok i, c'')

theorem fetches {outcome : Except FetchFailure Instruction × Core} (h : c.fetch m a = outcome) :
    c.Fetches m a outcome := by
  rw [← h, fetch]
  cases hlookup : c.lookup m a with
  | error p => exact .refused p hlookup
  | ok answer =>
    obtain ⟨found, c'⟩ := answer
    cases found with
    | some i => exact .hit i c' hlookup
    | none =>
      dsimp only
      cases hfetch : m.fetch a Decode.maxLength with
      | error fault => exact .faulted c' fault hlookup hfetch
      | ok fetched =>
        obtain ⟨window, stamp⟩ := fetched
        dsimp only
        cases hdecode : decode .bits64 a window with
        | error error => exact .undecoded c' window stamp error hlookup hfetch hdecode
        | ok i =>
          -- the look-up was not refused, so there are places to remember it in
          obtain ⟨c'', hremember⟩ := (placed_of_lookup hlookup).exists_remember
            (stamp.restrict a i.length) i
          simp only [keep, hremember]
          exact .read c' c'' window stamp i hlookup hfetch hdecode hremember

/-- Fetching leaves a core its places. -/
theorem Placed.fetch (h : c.Placed) (m : Memory) (a : Address) : (c.fetch m a).2.Placed := by
  generalize hfetch : c.fetch m a = outcome
  cases fetches hfetch with
  | refused p hlookup => exact h
  | hit i c' hlookup => exact placed_of_lookup hlookup
  | faulted c' fault hlookup => exact placed_of_lookup hlookup
  | undecoded c' window stamp error hlookup => exact placed_of_lookup hlookup
  | read c' c'' window stamp i hlookup hread hdecode hremember =>
    exact placed_of_remember hremember

/-- Fetching leaves the table of blocks alone, and whether instructions are described. -/
theorem blocks_fetch (c : Core) (m : Memory) (a : Address) :
    (c.fetch m a).2.blocks = c.blocks ∧ (c.fetch m a).2.tracing = c.tracing := by
  generalize hfetch : c.fetch m a = outcome
  cases fetches hfetch with
  | refused p hlookup => exact ⟨rfl, rfl⟩
  | hit i c' hlookup => exact blocks_lookup hlookup
  | faulted c' fault hlookup => exact blocks_lookup hlookup
  | undecoded c' window stamp error hlookup => exact blocks_lookup hlookup
  | read c' c'' window stamp i hlookup hread hdecode hremember =>
    obtain ⟨hblocks, htracing⟩ := blocks_lookup hlookup
    obtain ⟨hblocks', htracing'⟩ := blocks_remember hremember
    exact ⟨hblocks'.trans hblocks, htracing'.trans htracing⟩

end Core

end LongMode
