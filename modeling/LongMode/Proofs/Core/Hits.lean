import LongMode.Proofs.Core.CacheRequests
import LongMode.Proofs.Core.Coherence
import LongMode.Proofs.Memory.Fetches

/-!
How long a remembered instruction is used. When a core reads an instruction from memory, it
remembers it with the stamp of its own bytes, which is the present stamp of these bytes. A look-up
in another memory finds it just if that memory keeps the code of these bytes: the same frames are
behind them, in the same versions, and they can be executed (`Core.hit_iff_keepsCode`). What else
the fetched window held does not matter.

In the meantime the cache may be asked anything that leaves the entry in its place
(`CacheRequest.Spares`).
-/

set_option autoImplicit false
set_option relaxedAutoImplicit false

namespace LongMode

/-- A request that leaves the entry of an instruction in its place: the instruction may be looked up
where its code is kept, any other address may be looked up, and instructions may be remembered in
other places. -/
def CacheRequest.Spares (c : DecodeCache) (m : Memory) (i : Instruction) : CacheRequest → Prop
  | .lookup m' a => a = i.address → m.KeepsCode m' a i.length
  | .insert _ i' => c.index i'.address ≠ c.index i.address
  | .clear => False

namespace DecodeCache

theorem isCurrent_iff {e : CacheEntry} {m : Memory} {a : Address} :
    isCurrent e m a = true ↔ m.codeStamp a e.instruction.length = .ok e.stamp := by
  rw [isCurrent]
  cases m.codeStamp a e.instruction.length with
  | error fault => simp
  | ok stamp => simp

/-- A cache holds an instruction that was read from a memory, with the stamp that its bytes have
there. -/
structure Holds (c : DecodeCache) (m : Memory) (i : Instruction) (stamp : CodeStamp) : Prop where
  hasPlaces : 0 < c.length.toNat
  entry : c.entries[c.index i.address]? = some ⟨stamp, i⟩
  stamped : m.codeStamp i.address i.length = .ok stamp
  length_pos : 0 < i.length
  length_le : i.length ≤ Decode.maxLength

variable {c c' : DecodeCache} {m m' : Memory} {i : Instruction} {stamp : CodeStamp}

theorem Holds.isCurrent_iff (h : c.Holds m i stamp) :
    isCurrent ⟨stamp, i⟩ m' i.address = true ↔ m.KeepsCode m' i.address i.length := by
  rw [DecodeCache.isCurrent_iff]
  exact Memory.codeStamp_eq_ok_iff_keepsCode h.length_pos
    (Memory.pageOffset_add_length_le h.length_le) h.stamped

theorem Holds.of_entry (h : c.Holds m i stamp) (hlength : c'.length = c.length)
    (hentry : c'.entries[c.index i.address]? = some ⟨stamp, i⟩) : c'.Holds m i stamp := by
  refine ⟨?_, ?_, h.stamped, h.length_pos, h.length_le⟩
  · rw [hlength]
    exact h.hasPlaces
  · rw [index_congr hlength]
    exact hentry

/-- A look-up finds the instruction where its code is kept, and is counted as stale elsewhere. -/
theorem Holds.lookup (h : c.Holds m i stamp) (m' : Memory) :
    (m.KeepsCode m' i.address i.length → c.lookup m' i.address =
      .ok (some i, { c with stats.hits := c.stats.hits + 1 })) ∧
    (¬m.KeepsCode m' i.address i.length → ∃ after, c.lookup m' i.address = .ok (none, after) ∧
      after.stats.stale = c.stats.stale + 1) := by
  rw [lookup_of_pos h.hasPlaces, examine_of_entry h.entry]
  refine ⟨fun hkeeps ↦ ?_, fun hchanged ↦ ?_⟩
  · rw [if_pos (h.isCurrent_iff.mpr hkeeps)]
  · rw [if_neg (mt h.isCurrent_iff.mp hchanged)]
    exact ⟨_, rfl, rfl⟩

/-- A look-up of another address leaves the entry alone, also if the two have one place. -/
theorem entry_examine_of_ne (h : c.entries[c.index i.address]? = some ⟨stamp, i⟩) (m' : Memory)
    {a : Address} (ha : a ≠ i.address) :
    (c.examine (c.index a) m' a).2.entries[c.index i.address]? = some ⟨stamp, i⟩ := by
  rw [examine]
  split
  · exact h
  next e hentry =>
    split
    · exact h
    next haddress =>
      split
      · exact h
      -- the entry that is dropped is for another address, so it is in another place
      have hplace : c.index a ≠ c.index i.address := by
        intro hsame
        rw [hsame, h, Option.some.injEq] at hentry
        rw [not_not, ← hentry] at haddress
        exact ha haddress.symm
      simp only [Std.ExtTreeMap.getElem?_erase, Std.LawfulEqCmp.compare_eq_iff_eq, hplace, if_false]
      exact h

theorem Holds.perform (h : c.Holds m i stamp) {request : CacheRequest}
    (hspares : request.Spares c m i) :
    ∃ answer c', c.perform request = .ok (answer, c') ∧ c'.Holds m i stamp := by
  cases request with
  | clear => exact hspares.elim
  | insert stamp' i' =>
    have hother : c.index i'.address ≠ c.index i.address := hspares
    have hinsert := insert_of_pos h.hasPlaces stamp' i'
    refine ⟨none, c.put (c.index i'.address) ⟨stamp', i'⟩, ?_, h.of_entry rfl ?_⟩
    · rw [DecodeCache.perform, hinsert]
      rfl
    rw [put, Std.ExtTreeMap.getElem?_insert]
    simp only [Std.LawfulEqCmp.compare_eq_iff_eq, hother, if_false]
    exact h.entry
  | lookup m' a =>
    by_cases haddress : a = i.address
    · subst haddress
      exact ⟨_, _, (h.lookup m').1 (hspares rfl), h.of_entry rfl h.entry⟩
    · have hlookup := lookup_of_pos h.hasPlaces m' a
      have hentry := entry_examine_of_ne h.entry m' haddress
      have hlength := c.length_examine (c.index a) m' a
      generalize c.examine (c.index a) m' a = answer at hlookup hentry hlength
      exact ⟨answer.1, answer.2, hlookup, h.of_entry hlength hentry⟩

/-- What leaves the entry in its place once does so after other requests. -/
theorem spares_congr (hlength : c'.length = c.length) {request : CacheRequest}
    (h : request.Spares c m i) : request.Spares c' m i := by
  cases request with
  | clear => exact h
  | lookup m' a => exact h
  | insert stamp' i' =>
    rw [CacheRequest.Spares, index_congr hlength, index_congr hlength]
    exact h

theorem Holds.play (h : c.Holds m i stamp) {requests : List CacheRequest}
    (hspares : ∀ request ∈ requests, request.Spares c m i) :
    ∃ answers later, c.play requests = .ok (answers, later) ∧ later.Holds m i stamp := by
  induction requests generalizing c with
  | nil => exact ⟨[], c, rfl, h⟩
  | cons request requests ih =>
    obtain ⟨hrequest, hrequests⟩ := List.forall_mem_cons.mp hspares
    obtain ⟨answer, next, hperform, hnext⟩ := h.perform hrequest
    obtain ⟨answers, later, hplay, hlater⟩ := ih hnext fun request hmem ↦
      spares_congr (length_of_perform hperform) (hrequests request hmem)
    refine ⟨answer :: answers, later, ?_, hlater⟩
    rw [DecodeCache.play, hperform]
    dsimp only [bind, Except.bind]
    rw [hplay]
    rfl

end DecodeCache

namespace Core

variable {c c' next : Core} {m : Memory} {a : Address} {i : Instruction} {cache : DecodeCache}

/-- An instruction that was not found in the cache and is read from memory is held by the cache from
then on. -/
theorem holds_of_fetch (hm : m.WellFormed) (hmiss : c.lookup m a = .ok (none, next))
    (h : c.fetch m a = (.ok i, c')) (hcache : c'.cache = some cache) :
    i.address = a ∧ ∃ stamp, cache.Holds m i stamp := by
  cases fetches h with
  | hit _ _ hlookup =>
    rw [hmiss] at hlookup
    cases hlookup
  | read before _ bytes s _ hlookup hfetch hdecode hremember =>
    obtain ⟨hpos, hmax, hlength⟩ := length_of_decode hdecode
    obtain rfl := (isRead_of_decode hdecode).address
    obtain ⟨hnone, rfl⟩ | ⟨table, kept, -, hinsert, rfl⟩ := remember_eq_ok hremember
    · rw [hnone] at hcache
      cases hcache
    · obtain rfl := Option.some.inj hcache
      obtain ⟨hplaces, rfl⟩ := DecodeCache.insert_eq_ok_iff.mp hinsert
      exact ⟨rfl, _, hplaces, Std.ExtTreeMap.getElem?_insert_self,
        Memory.codeStamp_of_fetch hm hfetch (by decide) hpos hlength, hpos, hmax⟩

/-- A fetch in a window of at most one page succeeds just if its first byte can be executed, and it
returns the longest run of bytes from there on that can be executed and that fits in the window. The
stamp of any first bytes of the run is the one that the fetch returned, restricted to them. So an
instruction that a core read from memory and remembered is found again, and is counted as a hit,
just where the frames of its own bytes are the same, in the same versions, and can be executed;
elsewhere the look-up is counted as stale. This holds for as long as nothing takes the place of the
entry. -/
theorem hit_iff_keepsCode (windows : Nat → MapWindow) (history : List Action) (k : Nat)
    (a : Address) :
    let m := ((World.start windows).after history).memory k
    (∀ window ≤ pageSize,
      ((∃ bytes s, m.fetch a window = .ok (bytes, s)) ↔ (m.code? a.toNat).isSome) ∧
      ∀ bytes s, m.fetch a window = .ok (bytes, s) →
        (bytes.length ≤ window ∧ (∀ j < bytes.length, m.code? (a.toNat + j) = bytes[j]?) ∧
          (bytes.length < window → m.code? (a.toNat + bytes.length) = none)) ∧
        ∀ n, 1 ≤ n → n ≤ bytes.length → m.codeStamp a n = .ok (s.restrict a n)) ∧
    ∀ (c next c' : Core) (i : Instruction) (cache : DecodeCache),
      c.lookup m a = .ok (none, next) → c.fetch m a = (.ok i, c') → c'.cache = some cache →
      ∀ requests : List CacheRequest, (∀ request ∈ requests, request.Spares cache m i) →
      ∃ answers later, cache.play requests = .ok (answers, later) ∧ ∀ m' : Memory,
        (m.KeepsCode m' a i.length → later.lookup m' a =
          .ok (some i, { later with stats.hits := later.stats.hits + 1 })) ∧
        (¬m.KeepsCode m' a i.length → ∃ after, later.lookup m' a = .ok (none, after) ∧
          after.stats.stale = later.stats.stale + 1) := by
  intro m
  have hm : m.WellFormed := (World.wellFormed_after windows history).memory k
  have hoffset := a.pageOffset_lt
  refine ⟨fun window hwindow ↦ ⟨Memory.exists_fetch_iff window, fun bytes s hfetch ↦ ?_⟩, ?_⟩
  · have hle := Memory.length_le_of_fetch hfetch
    refine ⟨⟨hle, fun j hj ↦ Memory.code?_of_fetch hfetch hj (by omega),
      Memory.code?_length_of_fetch hfetch hwindow⟩, fun n hpos hlength ↦ ?_⟩
    exact Memory.codeStamp_of_fetch hm hfetch hwindow hpos hlength
  · intro c next c' i cache hmiss hfetch hcache requests hspares
    obtain ⟨rfl, stamp, hholds⟩ := holds_of_fetch hm hmiss hfetch hcache
    obtain ⟨answers, later, hplay, hlater⟩ := hholds.play hspares
    exact ⟨answers, later, hplay, hlater.lookup⟩

/-- Two pages of code with a one-byte instruction in the second last byte of the first page. -/
def codeBeforePageEnd : List Action :=
  [.request 0 (.map 0x1000 0x2000 .readExecute .anonymous), .request 0 (.poke 0x1ffe [0x90])]

/-- The fetched window reaches the second page, but the instruction does not: it is found after a
store to the second page, and not after a store to the first. -/
theorem hit_before_page_end :
    let memory (history : List Action) := ((World.start fun _ ↦ {}).after history).memory 0
    let m := memory codeBeforePageEnd
    let m' := memory (codeBeforePageEnd ++ [.request 0 (.poke 0x2000 [1])])
    let m'' := memory (codeBeforePageEnd ++ [.request 0 (.poke 0x1000 [1])])
    (∃ bytes s, m.fetch 0x1ffe 15 = .ok (bytes, s) ∧ bytes.length = 15 ∧
      m.codeStamp 0x1ffe 1 = .ok (s.restrict 0x1ffe 1) ∧
      m.codeStamp 0x1ffe 15 = .ok (s.restrict 0x1ffe 15)) ∧
    m'.codeStamp 0x1ffe 15 ≠ m.codeStamp 0x1ffe 15 ∧
      ∃ i c' cache, (ofConfig {}).fetch m 0x1ffe = (.ok i, c') ∧ c'.cache = some cache ∧
        (∃ after, cache.lookup m' 0x1ffe = .ok (some i, after)) ∧
        ∃ after, cache.lookup m'' 0x1ffe = .ok (none, after) := by
  intro memory m m' m''
  have hread : ((ofConfig {}).fetch m 0x1ffe).1.toOption.map Instruction.length = some 1 ∧
      ((ofConfig {}).fetch m 0x1ffe).2.cache.isSome := by decide +kernel
  have hmiss : (((ofConfig {}).lookup m 0x1ffe).toOption.map fun answer ↦ answer.1) =
      some none := by decide +kernel
  obtain ⟨i, hi, hlength⟩ := Option.map_eq_some_iff.mp hread.1
  obtain ⟨cache, hcache⟩ := Option.isSome_iff_exists.mp hread.2
  have hok {outcome : Except FetchFailure Instruction × Core} (h : outcome.1.toOption = some i) :
      outcome = (.ok i, outcome.2) := by
    obtain ⟨failure | i', c'⟩ := outcome
    · exact nomatch h
    · rw [← Option.some.inj h]
  have hmissed {outcome : Except Panic (Option Instruction × Core)}
      (h : (outcome.toOption.map fun answer ↦ answer.1) = some none) :
      ∃ next, outcome = .ok (none, next) := by
    obtain p | ⟨found, next⟩ := outcome
    · cases h
    · obtain rfl : found = none := Option.some.inj h
      exact ⟨next, rfl⟩
  have hfetch := hok hi
  have hkept : m.KeepsCode m' 0x1ffe i.length := by
    rw [hlength]
    intro j hj
    obtain rfl : j = 0 := by omega
    decide +kernel
  have hchanged : ¬m.KeepsCode m'' 0x1ffe i.length := by
    intro hkeeps
    exact absurd (hkeeps 0 (by omega)) (by decide +kernel)
  obtain ⟨hwindow, hheld⟩ := hit_iff_keepsCode (fun _ ↦ {}) codeBeforePageEnd 0 0x1ffe
  obtain ⟨hsucceeds, hfetched⟩ := hwindow 15 (by decide)
  obtain ⟨bytes, s, hbytes⟩ := hsucceeds.mpr (by decide +kernel)
  obtain ⟨⟨hle, -, hlongest⟩, hstamps⟩ := hfetched bytes s hbytes
  have hcode : ∀ j < 15, m.code? ((0x1ffe : Address).toNat + j) ≠ none := by decide +kernel
  have hfull : bytes.length = 15 := by
    by_contra hshort
    have hlt : bytes.length < 15 := by omega
    exact hcode bytes.length hlt (hlongest hlt)
  obtain ⟨next, hnext⟩ := hmissed hmiss
  obtain ⟨answers, later, hplay, hcached⟩ := hheld (ofConfig {}) next _ i cache hnext hfetch hcache
    [] (List.forall_mem_nil _)
  obtain ⟨rfl, rfl⟩ := Prod.mk.inj (Except.ok.inj hplay)
  obtain ⟨after, hstale, -⟩ := (hcached m'').2 hchanged
  refine ⟨⟨bytes, s, hbytes, hfull, hstamps 1 (by omega) (by omega),
      hstamps 15 (by omega) (by omega)⟩,
    by decide +kernel, i, _, cache, hfetch, hcache, ⟨_, (hcached m').1 hkept⟩, after, hstale⟩

end Core

end LongMode
