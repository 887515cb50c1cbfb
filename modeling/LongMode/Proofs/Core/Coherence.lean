import LongMode.Proofs.Core.Places
import LongMode.Proofs.Decode.Decoder
import LongMode.Proofs.Memory.Stamps

/-!
What a core remembers is what it would find. Every remembered instruction and every block of
instructions was read from some earlier memory of the same machine, and kept with the stamps of its
bytes (`CacheEntry.Stems`, `Block.Stems`). Frames only evolve, so an entry with a current stamp
holds the instruction that decoding the present bytes would give, through whatever address space one
looks (`DecodeCache.Stems.lookup`), and so does every instruction of a valid block
(`Block.Stems.decodes`). Nothing is said of entries that are stale: they are never used.

`Core.Coherent` is the invariant; it is kept by everything a core does, and while others use memory
(`Core.Coherent.mono`).
-/

set_option autoImplicit false
set_option relaxedAutoImplicit false

namespace LongMode

/-! ### Instructions in memory -/

namespace Memory

/-- Decoding the bytes at the address of an instruction gives that instruction. -/
def Decodes (m : Memory) (i : Instruction) : Prop :=
  ∃ bytes s, m.fetch i.address Decode.maxLength = .ok (bytes, s) ∧
    decode .bits64 i.address bytes = .ok i

variable {m m' : Memory} {i : Instruction}

/-- The bytes of an instruction touch two pages at most. -/
theorem pageOffset_add_length_le {a : Address} {n : Nat} (h : n ≤ Decode.maxLength) :
    a.pageOffset + n ≤ 2 * pageSize := by
  have hoffset := a.pageOffset_lt
  simp only [Decode.maxLength, pageSize] at *
  omega

/-- An instruction that is read from a window is read from any bytes that agree on its own. -/
theorem decodes_of_code? {bytes : List UInt8} (hdecode : decode .bits64 i.address bytes = .ok i)
    (hcode : ∀ j, j < i.length → m.code? (i.address.toNat + j) = bytes[j]?) : m.Decodes i := by
  obtain ⟨hone, hmax, hlength⟩ := length_of_decode hdecode
  have htwo := pageOffset_add_length_le (a := i.address) hmax
  have hsome (j : Nat) (hj : j < i.length) : (m.code? (i.address.toNat + j)).isSome := by
    rw [hcode j hj, List.getElem?_eq_getElem (Nat.lt_of_lt_of_le hj hlength)]
    rfl
  obtain ⟨bytes', s', hfetch', hlength'⟩ := fetch_of_code? hone hmax hsome
  refine ⟨bytes', s', hfetch', decode_eq_of_take_eq hdecode (List.ext_getElem? fun j ↦ ?_)⟩
  rw [List.getElem?_take, List.getElem?_take]
  by_cases hj : j < i.length
  · rw [if_pos hj, if_pos hj, ← hcode j hj,
      code?_of_fetch hfetch' (Nat.lt_of_lt_of_le hj hlength') (by omega)]
  · rw [if_neg hj, if_neg hj]

/-- The bytes of an instruction that memory decodes can all be executed. -/
theorem Decodes.code? (h : m.Decodes i) :
    ∃ bytes, decode .bits64 i.address bytes = .ok i ∧ i.length ≤ bytes.length ∧
      ∀ j, j < i.length → m.code? (i.address.toNat + j) = bytes[j]? := by
  obtain ⟨bytes, s, hfetch, hdecode⟩ := h
  obtain ⟨_, hmax, hlength⟩ := length_of_decode hdecode
  have htwo := pageOffset_add_length_le (a := i.address) hmax
  exact ⟨bytes, hdecode, hlength, fun j hj ↦
    code?_of_fetch hfetch (Nat.lt_of_lt_of_le hj hlength) (by omega)⟩

/-- Memories with the same code at an instruction decode it both. -/
theorem Decodes.of_code?_eq (h : m.Decodes i)
    (hsame : ∀ j, j < i.length →
      m'.code? (i.address.toNat + j) = m.code? (i.address.toNat + j)) : m'.Decodes i := by
  obtain ⟨bytes, hdecode, _, hcode⟩ := h.code?
  exact decodes_of_code? hdecode fun j hj ↦ (hsame j hj).trans (hcode j hj)

/-- Code that can be executed ends below 2^64. -/
theorem lt_of_code? (hm : m.WellFormed) {n : Nat} (h : (m.code? n).isSome) : n < addressLimit := by
  rw [Memory.code?] at h
  cases hpage : m.space.pages[n / pageSize]? with
  | none => simp [hpage] at h
  | some p =>
    have hend := hm.page_lt _ p hpage
    simp only [pageSize] at hend
    omega

/-- Memories with the same code in the page of the first byte of an instruction and in that of its
last byte decode it both. -/
theorem Decodes.of_pages (h : m.Decodes i) (hm : m.WellFormed)
    (hfirst : ∀ n, n / pageSize = i.address.page → m'.code? n = m.code? n)
    (hlast : ∀ n, n / pageSize = (i.address + BitVec.ofNat 64 (i.length - 1)).page →
      m'.code? n = m.code? n) : m'.Decodes i := by
  refine h.of_code?_eq fun j hj ↦ ?_
  obtain ⟨bytes, hdecode, hlength, hcode⟩ := h.code?
  obtain ⟨hone, hmax, _⟩ := length_of_decode hdecode
  by_cases hpage : (i.address.toNat + j) / pageSize = i.address.page
  · exact hfirst _ hpage
  · -- the byte is in the second page of the instruction, which is that of its last byte
    refine hlast _ ?_
    have hend : i.address.toNat + (i.length - 1) < addressLimit := by
      refine lt_of_code? hm ?_
      rw [hcode (i.length - 1) (by omega), List.getElem?_eq_getElem (by omega)]
      rfl
    rw [Address.page_add_ofNat _ hend]
    simp only [Address.page, pageSize, Decode.maxLength] at *
    omega

/-- A page with the stamp it had has the code it had. -/
theorem code?_of_pageStamp (hm : m.WellFormed) (hevolves : m.frames.Evolves m'.frames)
    {page : Address} {stamp : CodeStamp} (h : m.codeStamp page 1 = .ok stamp)
    (h' : m'.codeStamp page 1 = .ok stamp) {n : Nat} (hn : n / pageSize = page.page) :
    m'.code? n = m.code? n := by
  obtain ⟨p, hpage, hexecute, hfirst, _⟩ := codeStamp_eq_ok h
  obtain ⟨p', hpage', hexecute', hfirst', _⟩ := codeStamp_eq_ok h'
  have heq : m'.stampOf p'.frame = m.stampOf p.frame := hfirst'.symm.trans hfirst
  obtain ⟨hid, hframe⟩ := frame_eq_of_stampOf hevolves (hm.mapped_lt _ p hpage) heq
  rw [Memory.code?, Memory.code?, hn, hpage, hpage']
  simp only [hexecute, hexecute', if_true, hid, hframe]

end Memory

/-! ### Remembered instructions -/

/-- An entry was made from an earlier memory of a machine that has these frames now. -/
def CacheEntry.Stems (e : CacheEntry) (frames : FrameStore) : Prop :=
  ∃ m : Memory, m.WellFormed ∧ m.frames.Evolves frames ∧ ∃ bytes s,
    m.fetch e.instruction.address Decode.maxLength = .ok (bytes, s) ∧
      decode .bits64 e.instruction.address bytes = .ok e.instruction ∧
        e.stamp = s.restrict e.instruction.address e.instruction.length

theorem CacheEntry.Stems.mono {e : CacheEntry} {frames frames' : FrameStore} (h : e.Stems frames)
    (hevolves : frames.Evolves frames') : e.Stems frames' := by
  obtain ⟨m, hm, hearlier, hread⟩ := h
  exact ⟨m, hm, hearlier.trans hevolves, hread⟩

/-- An entry with a current stamp holds the instruction that memory has. -/
theorem CacheEntry.Stems.decodes {e : CacheEntry} {m : Memory} (h : e.Stems m.frames)
    (hcurrent : DecodeCache.isCurrent e m e.instruction.address = true) :
    m.Decodes e.instruction := by
  obtain ⟨m₀, hm₀, hevolves, bytes, s, hfetch, hdecode, hstamp⟩ := h
  obtain ⟨_, hmax, hlength⟩ := length_of_decode hdecode
  rw [DecodeCache.isCurrent] at hcurrent
  cases hpresent : m.codeStamp e.instruction.address e.instruction.length with
  | error fault => simp [hpresent] at hcurrent
  | ok stamp =>
    simp only [hpresent, beq_iff_eq] at hcurrent
    rw [hcurrent, hstamp] at hpresent
    exact Memory.decodes_of_code? hdecode fun j hj ↦ Memory.code?_of_codeStamp hm₀ hevolves hfetch
      hlength (Memory.pageOffset_add_length_le hmax) hpresent hj

/-- Every entry of a cache stems from an earlier memory. -/
def DecodeCache.Stems (c : DecodeCache) (frames : FrameStore) : Prop :=
  ∀ (n : Nat) (e : CacheEntry), c.entries[n]? = some e → e.Stems frames

namespace DecodeCache

variable {c : DecodeCache} {m : Memory}

/-- What is left of a cache in which a place was examined, and what was found there, is what memory
has. -/
theorem Stems.examine (hc : c.Stems m.frames) (place : Nat) (a : Address) :
    (c.examine place m a).2.Stems m.frames ∧
      ∀ i, (c.examine place m a).1 = some i → i.address = a ∧ m.Decodes i := by
  rw [DecodeCache.examine]
  split
  · exact ⟨hc, fun i h ↦ absurd h.symm (Option.some_ne_none i)⟩
  · rename_i e hentry
    split
    · exact ⟨hc, fun i h ↦ absurd h.symm (Option.some_ne_none i)⟩
    · rename_i haddress
      split
      · rename_i hcurrent
        refine ⟨hc, fun i h ↦ ?_⟩
        obtain rfl := Option.some.inj h
        rw [not_not] at haddress
        rw [← haddress] at hcurrent
        exact ⟨haddress, (hc _ e hentry).decodes hcurrent⟩
      · refine ⟨fun n e' he' ↦ ?_, fun i h ↦ absurd h.symm (Option.some_ne_none i)⟩
        simp only [Std.ExtTreeMap.getElem?_erase] at he'
        split at he'
        · cases he'
        · exact hc n e' he'

/-- What a cache finds is what memory has. -/
theorem Stems.lookup (hc : c.Stems m.frames) {a : Address} {found : Option Instruction}
    {c' : DecodeCache} (h : c.lookup m a = .ok (found, c')) :
    c'.Stems m.frames ∧ ∀ i, found = some i → i.address = a ∧ m.Decodes i := by
  have hexamined := hc.examine (c.index a) a
  rw [← (lookup_eq_ok_iff.mp h).2] at hexamined
  exact hexamined

theorem Stems.insert (hc : c.Stems m.frames) (hm : m.WellFormed) {a : Address}
    {bytes : List UInt8} {s : CodeStamp} {i : Instruction} {c' : DecodeCache}
    (hfetch : m.fetch a Decode.maxLength = .ok (bytes, s))
    (hdecode : decode .bits64 a bytes = .ok i)
    (h : c.insert (s.restrict a i.length) i = .ok c') : c'.Stems m.frames := by
  obtain rfl := (isRead_of_decode hdecode).address
  obtain ⟨-, rfl⟩ := insert_eq_ok_iff.mp h
  intro n e he
  simp only [DecodeCache.put, Std.ExtTreeMap.getElem?_insert] at he
  split at he
  · rw [← Option.some.inj he]
    exact ⟨m, hm, .refl _, bytes, s, hfetch, hdecode, rfl⟩
  · exact hc n e he

end DecodeCache

/-! ### Blocks -/

/-- Pages with the stamps that they have in a memory. -/
def Memory.Stamped (m : Memory) (pages : List (Address × CodeStamp)) : Prop :=
  ∀ page ∈ pages, m.codeStamp page.1 1 = .ok page.2

/-- The page that an address is in is one of the stamped ones. -/
def Covered (pages : List (Address × CodeStamp)) (a : Address) : Prop :=
  ∃ stamp, (a.pageFloor, stamp) ∈ pages

/-- The instructions of a block are what a memory has, and the stamps of the pages of each are
kept. -/
structure Block.ReadFrom (instructions : List Instruction) (pages : List (Address × CodeStamp))
    (m : Memory) : Prop where
  decodes (i : Instruction) : i ∈ instructions → m.Decodes i
  covered (i : Instruction) : i ∈ instructions →
    Covered pages i.address ∧ Covered pages (i.address + BitVec.ofNat 64 (i.length - 1))

namespace Block

variable {m : Memory} {pages pages' : List (Address × CodeStamp)}

theorem addPage_eq_some {page : Address} (h : addPage m pages page = some pages') :
    (∀ p ∈ pages, p ∈ pages') ∧ (∀ p ∈ pages', p ∈ pages ∨ m.codeStamp p.1 1 = .ok p.2) ∧
      ∃ stamp, (page, stamp) ∈ pages' := by
  rw [addPage] at h
  split at h
  · rename_i hany
    obtain rfl := Option.some.inj h
    obtain ⟨⟨page', stamp⟩, hmem, hpage⟩ := List.any_eq_true.mp hany
    obtain rfl : page' = page := by simpa using hpage
    exact ⟨fun _ hp ↦ hp, fun _ hp ↦ .inl hp, stamp, hmem⟩
  · split at h
    · rename_i stamp hstamp
      obtain rfl := Option.some.inj h
      refine ⟨fun p hp ↦ List.mem_append_left _ hp, fun p hp ↦ ?_, stamp, by simp⟩
      rcases List.mem_append.mp hp with hold | hnew
      · exact .inl hold
      · rw [List.mem_singleton.mp hnew]
        exact .inr hstamp
    · exact nomatch h

theorem addPagesOf_eq_some {i : Instruction} (h : addPagesOf m pages i = some pages')
    (hpages : m.Stamped pages) :
    (∀ p ∈ pages, p ∈ pages') ∧ m.Stamped pages' ∧ Covered pages' i.address ∧
      Covered pages' (i.address + BitVec.ofNat 64 (i.length - 1)) := by
  rw [addPagesOf] at h
  obtain ⟨between, hfirst, hlast⟩ := Option.bind_eq_some_iff.mp h
  obtain ⟨hsub, hnew, stamp, hmem⟩ := addPage_eq_some hfirst
  obtain ⟨hsub', hnew', stamp', hmem'⟩ := addPage_eq_some hlast
  have hbetween : m.Stamped between := fun p hp ↦ (hnew p hp).elim (hpages p) id
  have hafter : m.Stamped pages' := fun p hp ↦ (hnew' p hp).elim (hbetween p) id
  exact ⟨fun p hp ↦ hsub' p (hsub p hp), hafter, ⟨stamp, hsub' _ hmem⟩, stamp', hmem'⟩

theorem decodes_of_admissible? {a : Address} {i : Instruction}
    (h : admissible? m a = some i) : m.Decodes i := by
  rw [admissible?] at h
  split at h
  · exact nomatch h
  · rename_i bytes s hfetch
    split at h
    · exact nomatch h
    · rename_i i' hdecode
      split at h
      · exact nomatch h
      · obtain rfl := Option.some.inj h
        obtain rfl := (isRead_of_decode hdecode).address
        exact ⟨bytes, s, hfetch, hdecode⟩

/-- Compilation reads the instructions of a block from memory and stamps their pages. -/
theorem readFrom_of_runFrom (entry : Address) (room : Nat) {a : Address}
    {instructions : List Instruction}
    (h : runFrom m entry room a pages = some (instructions, pages')) (hpages : m.Stamped pages) :
    (∀ p ∈ pages, p ∈ pages') ∧ m.Stamped pages' ∧ ReadFrom instructions pages' m := by
  induction room generalizing a pages pages' instructions with
  | zero =>
    rw [runFrom, Option.some.injEq, Prod.mk.injEq] at h
    obtain ⟨rfl, rfl⟩ := h
    exact ⟨fun _ hp ↦ hp, hpages, fun _ hi ↦ absurd hi List.not_mem_nil,
      fun _ hi ↦ absurd hi List.not_mem_nil⟩
  | succ room ih =>
    rw [runFrom] at h
    split at h
    · rw [Option.some.injEq, Prod.mk.injEq] at h
      obtain ⟨rfl, rfl⟩ := h
      exact ⟨fun _ hp ↦ hp, hpages, fun _ hi ↦ absurd hi List.not_mem_nil,
        fun _ hi ↦ absurd hi List.not_mem_nil⟩
    · rename_i i hadmissible
      have hdecodes := decodes_of_admissible? hadmissible
      obtain ⟨between, hadd, hrest⟩ := Option.bind_eq_some_iff.mp h
      obtain ⟨hsub, hbetween, hfirst, hlast⟩ := addPagesOf_eq_some hadd hpages
      split at hrest
      · rw [Option.some.injEq, Prod.mk.injEq] at hrest
        obtain ⟨rfl, rfl⟩ := hrest
        refine ⟨hsub, hbetween, fun i' hi ↦ ?_, fun i' hi ↦ ?_⟩
        · rw [List.mem_singleton.mp hi]
          exact hdecodes
        · rw [List.mem_singleton.mp hi]
          exact ⟨hfirst, hlast⟩
      · obtain ⟨⟨rest, after⟩, htail, hcons⟩ := Option.bind_eq_some_iff.mp hrest
        rw [Option.some.injEq, Prod.mk.injEq] at hcons
        obtain ⟨rfl, rfl⟩ := hcons
        obtain ⟨hsub', hafter, hread⟩ := ih htail hbetween
        have hcovered : Covered after i.address ∧
            Covered after (i.address + BitVec.ofNat 64 (i.length - 1)) := by
          obtain ⟨stamp, hmem⟩ := hfirst
          obtain ⟨stamp', hmem'⟩ := hlast
          exact ⟨⟨stamp, hsub' _ hmem⟩, stamp', hsub' _ hmem'⟩
        refine ⟨fun p hp ↦ hsub' p (hsub p hp), hafter, fun i' hi ↦ ?_, fun i' hi ↦ ?_⟩
        · rcases List.mem_cons.mp hi with rfl | htail
          · exact hdecodes
          · exact hread.decodes i' htail
        · rcases List.mem_cons.mp hi with rfl | htail
          · exact hcovered
          · exact hread.covered i' htail

end Block

theorem Memory.hasStamp_iff {m : Memory} {page : Address} {stamp : CodeStamp} :
    m.hasStamp page stamp = true ↔ m.codeStamp page 1 = .ok stamp := by
  rw [hasStamp]
  cases m.codeStamp page 1 with
  | error fault => simp
  | ok present => simp

/-- A block is valid in the memories in which its pages have their stamps. -/
theorem Block.isValid_iff {b : Block} {m : Memory} :
    b.isValid m = true ↔ m.Stamped b.pages := by
  rw [isValid, List.all_eq_true]
  exact forall₂_congr fun _ _ ↦ Memory.hasStamp_iff

/-- A block was compiled from an earlier memory of a machine that has these frames now. -/
def Block.Stems (b : Block) (frames : FrameStore) : Prop :=
  ∃ m : Memory, m.WellFormed ∧ m.frames.Evolves frames ∧ m.Stamped b.pages ∧
    Block.ReadFrom b.instructions b.pages m

namespace Block

theorem Stems.mono {b : Block} {frames frames' : FrameStore} (h : b.Stems frames)
    (hevolves : frames.Evolves frames') : b.Stems frames' := by
  obtain ⟨m, hm, hearlier, hread⟩ := h
  exact ⟨m, hm, hearlier.trans hevolves, hread⟩

theorem stems_of_compile? {m : Memory} (hm : m.WellFormed) {entry : Address} {maxLength : Nat}
    {b : Block} (h : compile? m entry maxLength = some b) :
    b.Stems m.frames ∧ b.isValid m = true := by
  rw [compile?] at h
  obtain ⟨⟨instructions, pages⟩, hrun, hblock⟩ := Option.bind_eq_some_iff.mp h
  have hnone : m.Stamped [] := fun p hp ↦ absurd hp List.not_mem_nil
  obtain ⟨_, hstamped, hread⟩ := readFrom_of_runFrom entry _ hrun hnone
  by_cases hempty : instructions.isEmpty
  · simp [hempty] at hblock
  · simp only [hempty, Bool.false_eq_true, if_false, Option.some.injEq] at hblock
    rw [← hblock]
    exact ⟨⟨m, hm, .refl _, hstamped, hread⟩, isValid_iff.mpr hstamped⟩

/-- The page of an address among stamped pages has the code it had when they were stamped. -/
theorem code?_eq_of_covered {m m' : Memory} (hm : m.WellFormed)
    (hevolves : m.frames.Evolves m'.frames) {b : Block} (hstamped : m.Stamped b.pages)
    (hvalid : b.isValid m' = true) {a : Address} (hcovered : Covered b.pages a) {n : Nat}
    (hn : n / pageSize = a.page) : m'.code? n = m.code? n := by
  obtain ⟨stamp, hmem⟩ := hcovered
  refine Memory.code?_of_pageStamp hm hevolves (hstamped _ hmem) (isValid_iff.mp hvalid _ hmem) ?_
  rw [hn, a.page_pageFloor]

/-- Every instruction of a valid block is what memory has. -/
theorem Stems.decodes {b : Block} {m : Memory} (h : b.Stems m.frames)
    (hvalid : b.isValid m = true) {i : Instruction} (hi : i ∈ b.instructions) : m.Decodes i := by
  obtain ⟨m₀, hm₀, hevolves, hstamped, hread⟩ := h
  obtain ⟨hfirst, hlast⟩ := hread.covered i hi
  exact (hread.decodes i hi).of_pages hm₀
    (fun _ ↦ code?_eq_of_covered hm₀ hevolves hstamped hvalid hfirst)
    (fun _ ↦ code?_eq_of_covered hm₀ hevolves hstamped hvalid hlast)

end Block

/-! ### The table of blocks -/

/-- Every block of a table has a property. -/
def BlockTable.Each (P : Block → Prop) (t : BlockTable) : Prop :=
  ∀ (n : Nat) (b : Block), t.slots[n]? = some (.compiled b) → P b

/-- Every block of a table stems from an earlier memory. -/
def BlockTable.Stems (t : BlockTable) (frames : FrameStore) : Prop :=
  ∀ (n : Nat) (b : Block), t.slots[n]? = some (.compiled b) → b.Stems frames

namespace BlockTable

section Each

variable {P : Block → Prop} {t : BlockTable}

theorem each_erase (h : t.Each P) {t' : BlockTable} {victim : Nat}
    (hslots : t'.slots = t.slots.erase victim) : t'.Each P := by
  intro n b hb
  rw [hslots, Std.ExtTreeMap.getElem?_erase] at hb
  split at hb
  · exact nomatch hb
  · exact h n b hb

theorem each_invalidate (h : t.Each P) (entry : Address) : (t.invalidate entry).Each P := by
  rw [invalidate]
  split
  · exact each_erase h rfl
  · exact h

theorem each_evict (h : t.Each P) (entry : Address) : (t.evict entry).Each P := by
  rw [evict]
  split
  · split
    · exact each_erase h rfl
    · exact h
  · exact h

theorem each_insertSlot (h : t.Each P) (entry : Address) {slot : BlockSlot}
    (hslot : ∀ b, slot = .compiled b → P b) : (t.insertSlot entry slot).Each P := by
  have hevict : ({ t with heat := t.heat.erase entry.toNat }.evict entry).Each P :=
    each_evict (t := { t with heat := t.heat.erase entry.toNat }) h entry
  intro n b hb
  simp only [insertSlot, Std.ExtTreeMap.getElem?_insert] at hb
  split at hb
  · exact hslot b (Option.some.inj hb)
  · exact hevict n b hb

end Each

variable {t : BlockTable} {m : Memory} {a : Address}

/-- A block that a table gives out is valid and stems from memory, and so do those that it keeps. -/
def Supplies (outcome : Option Block × BlockTable) (m : Memory) : Prop :=
  outcome.2.Stems m.frames ∧ ∀ b, outcome.1 = some b → b.Stems m.frames ∧ b.isValid m = true

theorem supplies_none (h : t.Stems m.frames) : Supplies (none, t) m :=
  ⟨h, fun _ hb ↦ (nomatch hb)⟩

theorem supplies_compileAt (h : t.Stems m.frames) (hm : m.WellFormed) (a : Address) :
    Supplies (t.compileAt m a) m := by
  rw [compileAt]
  split
  · rename_i block hcompile
    obtain ⟨hstems, hvalid⟩ := Block.stems_of_compile? hm hcompile
    have hcounted : BlockTable.Stems { t with
        stats.compiled := t.stats.compiled + 1
        stats.runs := t.stats.runs + 1 } m.frames := h
    refine ⟨each_insertSlot hcounted a fun b hb ↦ ?_, fun b hb ↦ ?_⟩
    · rw [← BlockSlot.compiled.inj hb]
      exact hstems
    · rw [← Option.some.inj hb]
      exact ⟨hstems, hvalid⟩
  · split
    · exact supplies_none (each_insertSlot h a fun b hb ↦ (nomatch hb))
    · exact supplies_none h

theorem supplies_enter (h : t.Stems m.frames) (hm : m.WellFormed) (a : Address) :
    Supplies (t.enter m a) m := by
  have hwarm : (t.warm a).Stems m.frames := h
  rw [enter]
  split
  · exact supplies_none hwarm
  · exact supplies_compileAt hwarm hm a

theorem supplies_lookup (h : t.Stems m.frames) (hm : m.WellFormed) (a : Address) :
    Supplies (t.lookup m a) m := by
  rw [lookup]
  split
  · rename_i block hslot
    split
    · rename_i hvalid
      refine ⟨fun n b hb ↦ h n b hb, fun b hb ↦ ?_⟩
      rw [← Option.some.inj hb]
      exact ⟨h _ block hslot, hvalid⟩
    · exact supplies_enter (each_invalidate h a) hm a
  · split
    · exact supplies_none h
    · exact supplies_enter (each_erase h rfl) hm a
  · exact supplies_enter h hm a

end BlockTable

/-! ### Cores -/

/-- The decode cache of a core, if there is one, stems from earlier memories. -/
def Core.CacheStems (c : Core) (frames : FrameStore) : Prop :=
  ∀ cache : DecodeCache, c.cache = some cache → cache.Stems frames

/-- All that a core remembers stems from earlier memories of the machine that has these frames. -/
structure Core.Coherent (c : Core) (frames : FrameStore) : Prop where
  cache (cache : DecodeCache) : c.cache = some cache → cache.Stems frames
  blocks (table : BlockTable) : c.blocks = some table → table.Stems frames

namespace Core

variable {c c' : Core} {m : Memory} {frames frames' : FrameStore}

theorem Coherent.mono (h : c.Coherent frames) (hevolves : frames.Evolves frames') :
    c.Coherent frames' :=
  ⟨fun cache hcache n e he ↦ (h.cache cache hcache n e he).mono hevolves,
    fun table htable n b hb ↦ (h.blocks table htable n b hb).mono hevolves⟩

/-- A new core remembers nothing. -/
theorem coherent_ofConfig (config : CoreConfig) (frames : FrameStore) :
    (ofConfig config).Coherent frames := by
  constructor
  · intro cache hcache n e he
    simp only [ofConfig] at hcache
    split at hcache
    · cases hcache
    · rw [← Option.some.inj hcache] at he
      cases he
  · intro table htable n b hb
    obtain ⟨threshold, _, rfl⟩ := Option.map_eq_some_iff.mp htable
    cases hb

/-- A flush forgets. -/
theorem coherent_flush (c : Core) (frames : FrameStore) : c.flush.Coherent frames := by
  constructor
  · intro cache hcache n e he
    obtain ⟨cache', _, rfl⟩ := Option.map_eq_some_iff.mp hcache
    exact nomatch he
  · intro table htable n b hb
    obtain ⟨table', _, rfl⟩ := Option.map_eq_some_iff.mp htable
    exact nomatch hb

/-- The instruction at an address, or why there is none, as it is read from memory. -/
def read (m : Memory) (a : Address) : Except FetchFailure Instruction :=
  (fetch {} m a).1

theorem read_of_decodes {i : Instruction} (h : m.Decodes i) : read m i.address = .ok i := by
  obtain ⟨bytes, s, hfetch, hdecode⟩ := h
  simp only [read, fetch, lookup, hfetch, hdecode, keep, remember]

theorem read_eq_ok_iff {a : Address} {i : Instruction} :
    read m a = .ok i ↔ i.address = a ∧ m.Decodes i := by
  constructor
  · intro h
    cases hfetch : m.fetch a Decode.maxLength with
    | error fault => simp [read, fetch, lookup, hfetch] at h
    | ok fetched =>
      obtain ⟨bytes, s⟩ := fetched
      cases hdecode : decode .bits64 a bytes with
      | error error => simp [read, fetch, lookup, hfetch, hdecode] at h
      | ok i' =>
        simp only [read, fetch, lookup, hfetch, hdecode, keep, remember, Except.ok.injEq] at h
        obtain rfl := h
        obtain rfl := (isRead_of_decode hdecode).address
        exact ⟨rfl, bytes, s, hfetch, hdecode⟩
  · rintro ⟨rfl, h⟩
    exact read_of_decodes h

theorem cacheStems_lookup (h : c.CacheStems m.frames) {a : Address} {found : Option Instruction}
    (hlookup : c.lookup m a = .ok (found, c')) :
    c'.CacheStems m.frames ∧ ∀ i, found = some i → i.address = a ∧ m.Decodes i := by
  obtain ⟨-, rfl, rfl⟩ | ⟨cache, cache', hcache, hcached, rfl⟩ := lookup_eq_ok hlookup
  · exact ⟨h, fun i hi ↦ (nomatch hi)⟩
  · obtain ⟨hstems, hfound⟩ := DecodeCache.Stems.lookup (h cache hcache) hcached
    refine ⟨fun cache'' hcache'' ↦ ?_, hfound⟩
    rw [← Option.some.inj hcache'']
    exact hstems

theorem cacheStems_remember (h : c.CacheStems m.frames) (hm : m.WellFormed) {a : Address}
    {bytes : List UInt8} {s : CodeStamp} {i : Instruction}
    (hfetch : m.fetch a Decode.maxLength = .ok (bytes, s))
    (hdecode : decode .bits64 a bytes = .ok i)
    (hremember : c.remember (s.restrict a i.length) i = .ok c') : c'.CacheStems m.frames := by
  obtain ⟨-, rfl⟩ | ⟨cache, cache', hcache, hinsert, rfl⟩ := remember_eq_ok hremember
  · exact h
  · intro cache'' hcache''
    rw [← Option.some.inj hcache'']
    exact DecodeCache.Stems.insert (h cache hcache) hm hfetch hdecode hinsert

theorem coherent_lookup (h : c.Coherent m.frames) {a : Address} {found : Option Instruction}
    (hlookup : c.lookup m a = .ok (found, c')) :
    c'.Coherent m.frames ∧ ∀ i, found = some i → i.address = a ∧ m.Decodes i := by
  obtain ⟨hcache, hfound⟩ := cacheStems_lookup h.cache hlookup
  refine ⟨⟨hcache, fun table htable ↦ h.blocks table ?_⟩, hfound⟩
  rw [← htable, (blocks_lookup hlookup).1]

theorem coherent_remember (h : c.Coherent m.frames) (hm : m.WellFormed) {a : Address}
    {bytes : List UInt8} {s : CodeStamp} {i : Instruction}
    (hfetch : m.fetch a Decode.maxLength = .ok (bytes, s))
    (hdecode : decode .bits64 a bytes = .ok i)
    (hremember : c.remember (s.restrict a i.length) i = .ok c') : c'.Coherent m.frames := by
  refine ⟨cacheStems_remember h.cache hm hfetch hdecode hremember, fun table htable ↦ ?_⟩
  refine h.blocks table ?_
  rw [← htable, (blocks_remember hremember).1]

/-- A coherent core stays coherent when it fetches, and it fetches what is in memory, unless its
decode cache has no places. -/
theorem coherent_fetch (h : c.Coherent m.frames) (hm : m.WellFormed) (a : Address) :
    (c.fetch m a).2.Coherent m.frames ∧ ((c.fetch m a).1 = read m a ∨
      ¬c.Placed ∧ ∃ p, (c.fetch m a).1 = .error (.panic p)) := by
  generalize hfetch : c.fetch m a = outcome
  cases fetches hfetch with
  | refused p hlookup =>
    refine ⟨h, .inr ⟨fun hplaced ↦ ?_, p, rfl⟩⟩
    obtain ⟨found, c', hfound⟩ := hplaced.exists_lookup m a
    rw [hlookup] at hfound
    cases hfound
  | hit i c' hlookup =>
    obtain ⟨hcoherent, hfound⟩ := coherent_lookup h hlookup
    obtain ⟨rfl, hdecodes⟩ := hfound i rfl
    exact ⟨hcoherent, .inl (read_of_decodes hdecodes).symm⟩
  | faulted c' fault hlookup hfault =>
    refine ⟨(coherent_lookup h hlookup).1, .inl ?_⟩
    simp only [read, fetch, lookup, hfault]
  | undecoded c' window stamp error hlookup hwindow hdecode =>
    refine ⟨(coherent_lookup h hlookup).1, .inl ?_⟩
    simp only [read, fetch, lookup, hwindow, hdecode]
  | read c' c'' window stamp i hlookup hwindow hdecode hremember =>
    obtain ⟨hcoherent, -⟩ := coherent_lookup h hlookup
    refine ⟨coherent_remember hcoherent hm hwindow hdecode hremember, .inl ?_⟩
    simp only [read, fetch, lookup, hwindow, hdecode, keep, remember]

/-- What a core without tables does with the instruction at the instruction pointer. -/
def interpret (t : Thread) (m : Memory) : Execution :=
  (stepOne {} t m).1

theorem interpret_eq (t : Thread) (m : Memory) : interpret t m =
    match read m t.registers.rip with
    | .ok i => t.execute m i
    | .error (.fault fault) => t.raise m (.memory fault) t.registers.rip
    | .error (.decode error bytes) => t.haltOnDecode m t.registers.rip bytes error
    | .error (.panic p) => t.panic m p := by
  rw [interpret, stepOne, read]
  split <;> simp [*]

/-- A coherent core stays coherent when it takes a step, and does what a core without tables does,
unless its decode cache has no places. -/
theorem coherent_stepOne (h : c.Coherent m.frames) (hm : m.WellFormed) (t : Thread) :
    (c.stepOne t m).2.Coherent m.frames ∧ ((c.stepOne t m).1 = interpret t m ∨
      ¬c.Placed ∧ ∃ p, (c.stepOne t m).1 = t.panic m p) := by
  obtain ⟨hcoherent, hread⟩ := coherent_fetch h hm t.registers.rip
  rw [stepOne, interpret_eq]
  generalize c.fetch m t.registers.rip = outcome at hcoherent hread
  obtain ⟨found, c'⟩ := outcome
  obtain hread | ⟨hplaced, p, hpanic⟩ := hread
  · rw [← hread]
    cases found with
    | ok i => exact ⟨hcoherent, .inl rfl⟩
    | error failure => cases failure <;> exact ⟨hcoherent, .inl rfl⟩
  · dsimp only at hpanic
    subst hpanic
    exact ⟨hcoherent, .inr ⟨hplaced, p, rfl⟩⟩

/-- With places in its decode cache a coherent core does what a core without tables does. -/
theorem stepOne_of_placed (h : c.Coherent m.frames) (hm : m.WellFormed) (hplaced : c.Placed)
    (t : Thread) : (c.stepOne t m).1 = interpret t m :=
  (coherent_stepOne h hm t).2.resolve_right fun hcut ↦ hcut.1 hplaced

/-- An instruction that memory has is what a core without tables executes. -/
theorem interpret_of_decodes {t : Thread} {i : Instruction} (h : m.Decodes i)
    (hrip : t.registers.rip = i.address) : interpret t m = t.execute m i := by
  rw [interpret_eq, hrip, read_of_decodes h]

end Core

end LongMode
