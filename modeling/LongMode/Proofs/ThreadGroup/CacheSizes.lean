import LongMode.Proofs.Core.CacheRequests
import LongMode.Proofs.ThreadGroup.Settings

/-!
Sizes of the decode cache. Any number below 2^64 is accepted as the number of instructions that the
cache holds at least. The table has as many places as the least power of two that is not below, and
up to 2^63 this is a 64-bit number: then every access is to a place that the table has
(`Settings.cache_in_range`). Above 2^63 the length wraps to zero, and no access is
(`Settings.not_cache_in_range`).
-/

set_option autoImplicit false
set_option relaxedAutoImplicit false

namespace LongMode

namespace Settings

open Variable

variable {environment : String → Option String} {s t : Settings}

/-! ### Accepted sizes -/

theorem cacheEntries_lt_of_apply {v : Variable} (h : apply environment s v = .ok t)
    (hs : s.core.cacheEntries < addressLimit) : t.core.cacheEntries < addressLimit := by
  rw [apply] at h
  split at h
  · exact Except.ok.inj h ▸ hs
  next value _ =>
    cases hset : s.set? v value.toList with
    | none => simp [hset] at h
    | some s' =>
      rw [hset] at h
      obtain rfl := Except.ok.inj h
      cases v with
      | decodeCache =>
        obtain ⟨n, hn, rfl⟩ := Option.map_eq_some_iff.mp hset
        have hv : decodeCache ≠ hotThreshold := by decide
        exact (spells_of_count? hv hn).2
      | _ =>
        obtain ⟨n, -, rfl⟩ := Option.map_eq_some_iff.mp hset
        exact hs

theorem cacheEntries_lt_of_foldlM {rest : List Variable}
    (h : rest.foldlM (apply environment) s = .ok t)
    (hs : s.core.cacheEntries < addressLimit) : t.core.cacheEntries < addressLimit := by
  induction rest generalizing s with
  | nil => exact Except.ok.inj h ▸ hs
  | cons v rest ih =>
    rw [List.foldlM_cons] at h
    cases hv : apply environment s v with
    | error e => simp [hv, bind, Except.bind] at h
    | ok next =>
      rw [hv] at h
      exact ih h (cacheEntries_lt_of_apply hv hs)

/-- A size that is accepted is a 64-bit number. -/
theorem cacheEntries_lt (h : ofEnvironment environment = .ok s) :
    s.core.cacheEntries < addressLimit :=
  cacheEntries_lt_of_foldlM h (by decide)

/-! ### Accesses to the table -/

open DecodeCache (tableLength leastPowerOfTwo isCurrent)

/-- Of the decode caches that can be set up, those for at most 2^63 instructions have a table whose
length is a power of two and at least as great as was asked for, and the length did not wrap.
Through all look-ups, insertions and clearings the place of every address is one of the table, so
that no access is refused and the row of places answers as the table does; and a look-up of an
address examines the entry that was remembered for it. Every greater size that is accepted gives a
table of length zero, and each access to it is refused, as it is by the row. -/
theorem cache_in_range (environment : String → Option String) (s : Settings)
    (haccepted : ofEnvironment environment = .ok s) (hcache : s.core.cacheEntries ≠ 0) :
    let entries := s.core.cacheEntries
    let length := (tableLength entries).toNat
    (Core.ofConfig s.core).cache = some (.ofEntries entries) ∧
    (entries ≤ 2 ^ 63 →
      length = leastPowerOfTwo entries ∧ (∃ k, length = 2 ^ k) ∧ entries ≤ length ∧
      ∀ requests : List CacheRequest, ∃ answers played row,
        (DecodeCache.ofEntries entries).play requests = .ok (answers, played) ∧
        (CacheRow.ofEntries entries).play requests = .ok (answers, row) ∧ row.Shows played ∧
        (∀ a, played.index a < length) ∧
        ∀ stamp i m, ∃ kept after, played.insert stamp i = .ok kept ∧ kept.lookup m i.address =
          .ok (if isCurrent ⟨stamp, i⟩ m i.address then some i else none, after)) ∧
    (2 ^ 63 < entries →
      length = 0 ∧ ∀ m a stamp i,
        (DecodeCache.ofEntries entries).lookup m a =
          .error (.outOfRow (DecodeCache.hash a).toNat 0) ∧
        (DecodeCache.ofEntries entries).insert stamp i =
          .error (.outOfRow (DecodeCache.hash i.address).toNat 0) ∧
        (CacheRow.ofEntries entries).lookup m a =
          .error (.outOfRow (DecodeCache.hash a).toNat 0) ∧
        (CacheRow.ofEntries entries).insert stamp i =
          .error (.outOfRow (DecodeCache.hash i.address).toNat 0)) := by
  intro entries length
  refine ⟨if_neg hcache, fun hsize ↦ ?_, fun hsize ↦ ?_⟩
  · have hlength : length = leastPowerOfTwo entries := DecodeCache.toNat_tableLength hcache hsize
    obtain ⟨k, hk⟩ := DecodeCache.exists_leastPowerOfTwo_eq entries
    have hpos : 0 < length := by
      rw [hlength, hk]
      exact Nat.two_pow_pos k
    refine ⟨hlength, ⟨k, hlength.trans hk⟩, ?_, fun requests ↦ ?_⟩
    · exact hlength ▸ DecodeCache.le_leastPowerOfTwo entries
    obtain ⟨answers, played, row, hplayed, hrow, hkept, hshows⟩ :=
      (CacheRow.shows_ofEntries entries).play hpos requests
    have hplaces : 0 < played.length.toNat := by
      rw [hkept]
      exact hpos
    refine ⟨answers, played, row, hplayed, hrow, hshows, fun a ↦ ?_, fun stamp i m ↦
      DecodeCache.lookup_insert hplaces stamp i m⟩
    rw [DecodeCache.index_congr hkept]
    exact DecodeCache.index_lt hpos a
  · have hlimit : entries ≤ 2 ^ 64 := Nat.le_of_lt (cacheEntries_lt haccepted)
    have hwraps := DecodeCache.tableLength_eq_zero hsize hlimit
    have hzero : length = 0 := congrArg BitVec.toNat hwraps
    have htable : (DecodeCache.ofEntries entries).length = 0 := hwraps
    have hrow : (CacheRow.ofEntries entries).places.size = 0 := Array.size_replicate.trans hzero
    refine ⟨hzero, fun m a stamp i ↦ ⟨?_, ?_, ?_, ?_⟩⟩
    · rw [DecodeCache.lookup, DecodeCache.place_of_length_eq_zero htable]
      rfl
    · rw [DecodeCache.insert, DecodeCache.place_of_length_eq_zero htable]
      rfl
    · rw [CacheRow.lookup, CacheRow.place_of_size_eq_zero hrow]
      rfl
    · rw [CacheRow.insert, CacheRow.place_of_size_eq_zero hrow]
      rfl

/-- A size that asks for a table of 32 places. -/
theorem cache_in_range_thirtyOne :
    let environment (name : String) := if name = "XEMU_DECODE_CACHE" then some "0x1F" else none
    ofEnvironment environment = .ok { core := { cacheEntries := 31 } } ∧
      (tableLength 31).toNat = leastPowerOfTwo 31 ∧ leastPowerOfTwo 31 = 32 ∧
      ∀ a, (DecodeCache.ofEntries 31).index a < (tableLength 31).toNat := by
  intro environment
  have haccepted : ofEnvironment environment = .ok { core := { cacheEntries := 31 } } := rfl
  obtain ⟨-, hsmall, -⟩ := cache_in_range environment _ haccepted (by decide)
  obtain ⟨hlength, -, -, hplayed⟩ := hsmall (by decide)
  obtain ⟨answers, played, row, hnothing, -, -, hindex, -⟩ := hplayed []
  obtain ⟨rfl, rfl⟩ := Prod.mk.inj (Except.ok.inj hnothing)
  exact ⟨haccepted, hlength, by decide, hindex⟩

/-- A size just above 2^63 is accepted, and its table has no place for any address. -/
theorem not_cache_in_range :
    ¬ ∀ (environment : String → Option String) (s : Settings), ofEnvironment environment = .ok s →
      s.core.cacheEntries ≠ 0 →
      s.core.cacheEntries ≤ (tableLength s.core.cacheEntries).toNat ∧
        ∀ a, (DecodeCache.ofEntries s.core.cacheEntries).index a <
          (tableLength s.core.cacheEntries).toNat := by
  intro h
  let environment (name : String) :=
    if name = "XEMU_DECODE_CACHE" then some "0x8000000000000001" else none
  have haccepted : ofEnvironment environment =
      .ok { core := { cacheEntries := 0x8000000000000001 } } := rfl
  have hlength := (h environment _ haccepted (by decide)).1
  rw [DecodeCache.tableLength_eq_zero (by decide) (by decide)] at hlength
  exact absurd hlength (by decide)

end Settings

end LongMode
