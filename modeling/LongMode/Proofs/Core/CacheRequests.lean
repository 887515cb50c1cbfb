import LongMode.Core.CacheRow
import LongMode.Proofs.Core.Places

/-!
Requests to a decode cache. A cache is looked up in, is given instructions and is cleared; meanwhile
its length stays, so that every address keeps its place.

A cache is laid out as a row of places. As long as the row has a place at all, no access misses it
and the row answers as the table does (`CacheRow.Shows.play`); a row without places refuses every
access (`CacheRow.place_of_size_eq_zero`).
-/

set_option autoImplicit false
set_option relaxedAutoImplicit false

namespace LongMode

/-- What is asked of a decode cache. -/
inductive CacheRequest where
  /-- The remembered instruction of an address is looked up, in a memory. -/
  | lookup (m : Memory) (a : Address)
  /-- An instruction is remembered, with the stamp of its bytes. -/
  | insert (stamp : CodeStamp) (i : Instruction)
  /-- Every instruction is forgotten. -/
  | clear

namespace DecodeCache

/-- Carry out a request. -/
def perform (c : DecodeCache) : CacheRequest → Except Panic (Option Instruction × DecodeCache)
  | .lookup m a => c.lookup m a
  | .insert stamp i => (c.insert stamp i).map fun c ↦ (none, c)
  | .clear => .ok (none, c.clear)

/-- Carry out requests, and collect the answers, up to the first access that is refused. -/
def play : DecodeCache → List CacheRequest →
    Except Panic (List (Option Instruction) × DecodeCache)
  | c, [] => .ok ([], c)
  | c, request :: requests => do
    let (answer, c) ← c.perform request
    let (answers, c) ← play c requests
    return (answer :: answers, c)

variable {c c' : DecodeCache}

theorem length_of_perform {request : CacheRequest} {answer : Option Instruction}
    (h : c.perform request = .ok (answer, c')) : c'.length = c.length := by
  cases request with
  | lookup m a =>
    exact (length_of_lookup h).2
  | insert stamp i =>
    rw [perform] at h
    cases hinsert : c.insert stamp i with
    | error p =>
      rw [hinsert] at h
      cases h
    | ok kept =>
      rw [hinsert] at h
      obtain ⟨-, rfl⟩ := insert_eq_ok_iff.mp hinsert
      cases h
      rfl
  | clear => exact congrArg (fun answer ↦ answer.2.length) (Except.ok.inj h).symm

/-- What is looked up is what was last remembered for the address. -/
theorem lookup_insert (h : 0 < c.length.toNat) (stamp : CodeStamp) (i : Instruction) (m : Memory) :
    ∃ kept after, c.insert stamp i = .ok kept ∧ kept.lookup m i.address =
      .ok (if isCurrent ⟨stamp, i⟩ m i.address then some i else none, after) := by
  let kept := c.put (c.index i.address) ⟨stamp, i⟩
  have hentry : kept.entries[kept.index i.address]? = some ⟨stamp, i⟩ :=
    Std.ExtTreeMap.getElem?_insert_self
  have hlookup : kept.lookup m i.address = .ok (kept.examine (kept.index i.address) m i.address) :=
    lookup_of_pos (c := kept) h m i.address
  refine ⟨kept, (kept.examine (kept.index i.address) m i.address).2, insert_of_pos h stamp i, ?_⟩
  rw [hlookup, examine_of_entry hentry]
  split <;> rfl

end DecodeCache

/-! ### The row of places -/

namespace CacheRow

/-- Carry out a request. -/
def perform (r : CacheRow) : CacheRequest → Except Panic (Option Instruction × CacheRow)
  | .lookup m a => r.lookup m a
  | .insert stamp i => (r.insert stamp i).map fun r ↦ (none, r)
  | .clear => .ok (none, r.clear)

/-- Carry out requests, and collect the answers, up to the first access that is refused. -/
def play : CacheRow → List CacheRequest →
    Except Panic (List (Option Instruction) × CacheRow)
  | r, [] => .ok ([], r)
  | r, request :: requests => do
    let (answer, r) ← r.perform request
    let (answers, r) ← play r requests
    return (answer :: answers, r)

/-- A row and a table have the same entries in the same places, and the same counts. -/
structure Shows (r : CacheRow) (c : DecodeCache) : Prop where
  size_eq : r.places.size = c.length.toNat
  stats_eq : r.stats = c.stats
  places_eq (n : Nat) : r.places[n]?.join = c.entries[n]?

variable {r : CacheRow} {c : DecodeCache}

theorem shows_ofEntries (entries : Nat) :
    (ofEntries entries).Shows (DecodeCache.ofEntries entries) := by
  refine ⟨Array.size_replicate, rfl, fun n ↦ ?_⟩
  rw [ofEntries, Array.getElem?_replicate]
  split
  · rfl
  · rfl

theorem Shows.index_eq (h : r.Shows c) (a : Address) : r.index a = c.index a := by
  rw [index, DecodeCache.index, h.size_eq, BitVec.ofNat_toNat, BitVec.setWidth_eq]

theorem Shows.place_eq (h : r.Shows c) (hpos : 0 < c.length.toNat) (a : Address) :
    ∃ place : Fin r.places.size, r.place a = .ok place ∧ place.val = c.index a ∧
      r.entry place = c.entries[c.index a]? := by
  have hlt : r.index a < r.places.size := by
    rw [h.index_eq, h.size_eq]
    exact DecodeCache.index_lt hpos a
  refine ⟨⟨r.index a, hlt⟩, dif_pos hlt, h.index_eq a, ?_⟩
  rw [← h.places_eq, ← h.index_eq, Array.getElem?_eq_getElem hlt]
  rfl

/-- An entry is put into a place, or taken out of it. -/
theorem Shows.put (h : r.Shows c) (place : Fin r.places.size) {entry : Option CacheEntry}
    {stats : CacheStats} {c' : DecodeCache} (hlength : c'.length = c.length)
    (hstats : stats = c'.stats)
    (hentries : ∀ n, c'.entries[n]? = if place.val = n then entry else c.entries[n]?) :
    { r.put place entry with stats }.Shows c' := by
  refine ⟨?_, hstats, fun n ↦ ?_⟩
  · rw [CacheRow.put, Array.size_set, hlength]
    exact h.size_eq
  · rw [hentries, CacheRow.put, Array.getElem?_set]
    split
    · rfl
    · exact h.places_eq n

/-- A row with places refuses no look-up, and answers as the table that it shows. -/
theorem Shows.lookup (h : r.Shows c) (hpos : 0 < c.length.toNat) (m : Memory) (a : Address) :
    ∃ r', r.lookup m a = .ok ((c.examine (c.index a) m a).1, r') ∧
      r'.Shows (c.examine (c.index a) m a).2 := by
  obtain ⟨place, hplace, hval, hentry⟩ := h.place_eq hpos a
  rw [CacheRow.lookup, hplace, DecodeCache.examine]
  dsimp only [bind, Except.bind]
  rw [hentry]
  cases c.entries[c.index a]? with
  | none => exact ⟨_, rfl, h.size_eq, by rw [miss, h.stats_eq]; rfl, h.places_eq⟩
  | some e =>
    dsimp only
    split
    · exact ⟨_, rfl, h.size_eq, by rw [miss, h.stats_eq]; rfl, h.places_eq⟩
    split
    · exact ⟨_, rfl, h.size_eq, by rw [h.stats_eq], h.places_eq⟩
    · rw [h.stats_eq]
      refine ⟨_, rfl, h.put place rfl rfl fun n ↦ ?_⟩
      rw [hval, Std.ExtTreeMap.getElem?_erase]
      simp only [Std.LawfulEqCmp.compare_eq_iff_eq]

/-- A row with places refuses no request, and answers as the table that it shows. -/
theorem Shows.perform (h : r.Shows c) (hpos : 0 < c.length.toNat) (request : CacheRequest) :
    ∃ answer c' r', c.perform request = .ok (answer, c') ∧ r.perform request = .ok (answer, r') ∧
      r'.Shows c' := by
  cases request with
  | lookup m a =>
    obtain ⟨r', hlookup, hshows⟩ := h.lookup hpos m a
    exact ⟨_, _, r', DecodeCache.lookup_of_pos hpos m a, hlookup, hshows⟩
  | insert stamp i =>
    obtain ⟨place, hplace, hval, hentry⟩ := h.place_eq hpos i.address
    rw [DecodeCache.perform, DecodeCache.insert_of_pos hpos, CacheRow.perform, insert, hplace]
    refine ⟨none, _, _, rfl, rfl, h.put place rfl h.stats_eq fun n ↦ ?_⟩
    rw [hval, DecodeCache.put, Std.ExtTreeMap.getElem?_insert]
    simp only [Std.LawfulEqCmp.compare_eq_iff_eq]
  | clear =>
    refine ⟨none, _, _, rfl, rfl, ?_, h.stats_eq, fun n ↦ ?_⟩
    · exact Array.size_map.trans h.size_eq
    · rw [clear, Array.getElem?_map]
      cases r.places[n]? <;> rfl

/-- As long as a row has places, no access misses it, and it answers as the table that it shows. -/
theorem Shows.play (h : r.Shows c) (hpos : 0 < c.length.toNat) (requests : List CacheRequest) :
    ∃ answers c' r', c.play requests = .ok (answers, c') ∧ r.play requests = .ok (answers, r') ∧
      c'.length = c.length ∧ r'.Shows c' := by
  induction requests generalizing r c with
  | nil => exact ⟨[], c, r, rfl, rfl, rfl, h⟩
  | cons request requests ih =>
    obtain ⟨answer, next, row, hrequest, hrow, hnext⟩ := h.perform hpos request
    have hlength : next.length = c.length := DecodeCache.length_of_perform hrequest
    obtain ⟨answers, last, row', hrequests, hrows, hlast, hshows⟩ := ih hnext (by rwa [hlength])
    refine ⟨answer :: answers, last, row', ?_, ?_, hlast.trans hlength, hshows⟩
    · rw [DecodeCache.play, hrequest]
      dsimp only [bind, Except.bind]
      rw [hrequests]
      rfl
    · rw [CacheRow.play, hrow]
      dsimp only [bind, Except.bind]
      rw [hrows]
      rfl

/-- A row without places has none for any address. -/
theorem place_of_size_eq_zero (h : r.places.size = 0) (a : Address) :
    r.place a = .error (.outOfRow (DecodeCache.hash a).toNat 0) := by
  have hindex : r.index a = (DecodeCache.hash a).toNat := by
    rw [index, h]
    exact congrArg BitVec.toNat BitVec.and_allOnes
  rw [place, dif_neg (by omega), hindex, h]

end CacheRow

end LongMode
