import LongMode.Proofs.Core.Contention

/-!
What a core finds current while other threads store, at any moment between two of its calls.

The decode cache is right (`Contention.accepted_right`): bytes and stamp come from one call, and a
stamp that is current later was current all the while. The stamps of a block come from later calls
than its instructions do. They pin what the pages held when an instruction had been stamped
(`Memory.Pins`), which is the instruction unless the block was torn (`Sample.Stems`). So of the
blocks that are found valid those that were torn are stale, and no others
(`Block.Sampled.torn_iff`); a store between fetch and stamp makes one (`not_accepted_right`).

The pages of a block are checked one after the other. Stores only move stamps forward, so if all
checks succeed, all stamps were current when the first of them was made (`gives_allM_look`). By the
end of the check of several pages the first ones may have changed again.
-/

set_option autoImplicit false
set_option relaxedAutoImplicit false

namespace LongMode

/-! ### Stamps of the past -/

/-- A frame that was given out has got as far as a stamp of it, or further. -/
def FrameStamp.Past (stamp : FrameStamp) (frames : FrameStore) : Prop :=
  stamp.frame < frames.next ∧ stamp.version ≤ (frames.frame stamp.frame).version

theorem FrameStamp.Past.mono {stamp : FrameStamp} {frames frames' : FrameStore}
    (h : stamp.Past frames) (hevolves : frames.Evolves frames') : stamp.Past frames' :=
  ⟨Nat.lt_of_lt_of_le h.1 hevolves.next_le, Nat.le_trans h.2 (hevolves.version_le h.1)⟩

namespace Memory

/-- A page has a stamp, or the frame behind it has been stored to since it had it. -/
structure Bears (m : Memory) (page : Address) (stamp : CodeStamp) : Prop where
  past : stamp.first.Past m.frames
  second : stamp.second = none
  mapped : ∃ p, m.space.pages[page.page]? = some p ∧ p.permissions.execute = true ∧
    p.frame = stamp.first.frame

variable {m m' : Memory} {page : Address} {stamp : CodeStamp}

theorem codeStamp_one_eq_ok_iff :
    m.codeStamp page 1 = .ok stamp ↔ ∃ p, m.space.pages[page.page]? = some p ∧
      p.permissions.execute = true ∧ stamp = ⟨m.stampOf p.frame, none⟩ := by
  have hcross : crossesPage page 1 = false := by
    rw [crossesPage, decide_eq_false_iff_not, Nat.not_lt]
    exact page.pageOffset_lt
  rw [codeStamp, hcross]
  cases hpage : m.executablePage page.page page with
  | error fault =>
    simp only [bind, Except.bind, reduceCtorEq, false_iff]
    rintro ⟨p, hp, hexecute, -⟩
    rw [executablePage_eq_ok.mpr ⟨hp, hexecute⟩] at hpage
    cases hpage
  | ok p =>
    obtain ⟨hp, hexecute⟩ := executablePage_eq_ok.mp hpage
    simp only [bind, Except.bind, Bool.false_eq_true, if_false, Except.ok.injEq]
    constructor
    · rintro rfl
      exact ⟨p, hp, hexecute, rfl⟩
    · rintro ⟨p', hp', -, rfl⟩
      rw [Option.some.inj (hp.symm.trans hp')]

theorem bears_of_codeStamp (hm : m.WellFormed) (h : m.codeStamp page 1 = .ok stamp) :
    m.Bears page stamp := by
  obtain ⟨p, hp, hexecute, rfl⟩ := codeStamp_one_eq_ok_iff.mp h
  exact ⟨⟨hm.mapped_lt _ p hp, Nat.le_refl _⟩, rfl, p, hp, hexecute, rfl⟩

/-- Stores leave the stamp of a page behind, but not its frame. -/
theorem Bears.mono (h : m.Bears page stamp) (hspace : m'.space = m.space)
    (hevolves : m.frames.Evolves m'.frames) : m'.Bears page stamp :=
  ⟨h.past.mono hevolves, h.second, hspace ▸ h.mapped⟩

/-- A stamp that a page has later, it has now, if the frame behind it got that far. -/
theorem Bears.codeStamp_eq (h : m.Bears page stamp) (hevolves : m.frames.Evolves m'.frames)
    (h' : m'.codeStamp page 1 = .ok stamp) : m.codeStamp page 1 = .ok stamp := by
  obtain ⟨p, hp, hexecute, hframe⟩ := h.mapped
  obtain ⟨p', -, -, rfl⟩ := codeStamp_one_eq_ok_iff.mp h'
  have hversion : (m'.frames.frame p'.frame).version = (m.frames.frame p'.frame).version :=
    Nat.le_antisymm h.past.2 (hevolves.version_le h.past.1)
  refine codeStamp_one_eq_ok_iff.mpr ⟨p, hp, hexecute, ?_⟩
  rw [hframe]
  simp only [stampOf, hversion]

/-- A stamp of the past that a page has after stores, it had before them. -/
theorem codeStamp_eq_of_past (h : stamp.first.Past m.frames) (hspace : m'.space = m.space)
    (hevolves : m.frames.Evolves m'.frames) (h' : m'.codeStamp page 1 = .ok stamp) :
    m.codeStamp page 1 = .ok stamp := by
  obtain ⟨p, hp, hexecute, rfl⟩ := codeStamp_one_eq_ok_iff.mp h'
  have hbears : m.Bears page ⟨m'.stampOf p.frame, none⟩ :=
    ⟨h, rfl, p, hspace ▸ hp, hexecute, rfl⟩
  exact hbears.codeStamp_eq hevolves h'

/-- Among stamped pages there is that of an address, and memory bears its stamp. -/
def Pins (m : Memory) (pages : List (Address × CodeStamp)) (a : Address) : Prop :=
  ∃ stamp, (a.pageFloor, stamp) ∈ pages ∧ m.Bears a.pageFloor stamp

/-- Where all stamps are current again, a pinned page has the code that it had. -/
theorem Pins.code?_eq {pages : List (Address × CodeStamp)} {a : Address} (h : m.Pins pages a)
    (hm : m.WellFormed) (hevolves : m.frames.Evolves m'.frames) (hstamped : m'.Stamped pages)
    {n : Nat} (hn : n / pageSize = a.page) : m'.code? n = m.code? n := by
  obtain ⟨stamp, hmem, hbears⟩ := h
  have hpresent := hstamped _ hmem
  refine code?_of_pageStamp hm hevolves (hbears.codeStamp_eq hevolves hpresent) hpresent ?_
  rw [hn, a.page_pageFloor]

end Memory

/-! ### Blocks out of samples -/

/-- An instruction was taken from memory that the machine had some time ago, with the stamps of its
pages among those that were taken. -/
def Sample.Stems (x : Sample) (pages : List (Address × CodeStamp)) (frames : FrameStore) : Prop :=
  ∃ m : Memory, m.WellFormed ∧ m.frames.Evolves frames ∧
    (x.held = true ↔ m.Decodes x.instruction) ∧
    m.Pins pages x.instruction.address ∧
    m.Pins pages (x.instruction.address + BitVec.ofNat 64 (x.instruction.length - 1))

theorem Sample.Stems.mono {x : Sample} {pages pages' : List (Address × CodeStamp)}
    {frames frames' : FrameStore} (h : x.Stems pages frames) (hpages : ∀ p ∈ pages, p ∈ pages')
    (hevolves : frames.Evolves frames') : x.Stems pages' frames' := by
  obtain ⟨m, hm, hearlier, hheld, ⟨first, hfirst, hbears⟩, last, hlast, hbears'⟩ := h
  exact ⟨m, hm, hearlier.trans hevolves, hheld, ⟨first, hpages _ hfirst, hbears⟩, last,
    hpages _ hlast, hbears'⟩

/-- Where the stamps are current, memory has the instructions that were held, and no other. -/
theorem Sample.Stems.held_iff {x : Sample} {pages : List (Address × CodeStamp)} {m : Memory}
    (h : x.Stems pages m.frames) (hm : m.WellFormed) (hstamped : m.Stamped pages) :
    x.held = true ↔ m.Decodes x.instruction := by
  obtain ⟨m₀, hm₀, hevolves, hheld, hfirst, hlast⟩ := h
  rw [hheld]
  constructor
  · intro hdecodes
    exact hdecodes.of_pages hm₀ (fun _ ↦ hfirst.code?_eq hm₀ hevolves hstamped)
      fun _ ↦ hlast.code?_eq hm₀ hevolves hstamped
  · intro hdecodes
    exact hdecodes.of_pages hm (fun _ hn ↦ (hfirst.code?_eq hm₀ hevolves hstamped hn).symm)
      fun _ hn ↦ (hlast.code?_eq hm₀ hevolves hstamped hn).symm

/-- A block was compiled from samples, not all of which were held if it was torn. -/
structure Block.Sampled (b : Block) (torn : Bool) (frames : FrameStore) : Prop where
  past (p : Address × CodeStamp) : p ∈ b.pages → p.2.first.Past frames
  samples : ∃ samples : List Sample, samples.map (·.instruction) = b.instructions ∧
    samples.any (!·.held) = torn ∧ ∀ x ∈ samples, x.Stems b.pages frames

namespace Block

variable {b : Block} {torn : Bool} {frames frames' : FrameStore} {m : Memory}

theorem Sampled.mono (h : b.Sampled torn frames) (hevolves : frames.Evolves frames') :
    b.Sampled torn frames' := by
  obtain ⟨samples, hinstructions, htorn, hstems⟩ := h.samples
  exact ⟨fun p hp ↦ (h.past p hp).mono hevolves, samples, hinstructions, htorn, fun x hx ↦
    (hstems x hx).mono (fun _ hp ↦ hp) hevolves⟩

/-- The valid blocks that were torn are the stale ones. -/
theorem Sampled.torn_iff (h : b.Sampled torn m.frames) (hm : m.WellFormed)
    (hvalid : b.isValid m = true) :
    torn = true ↔ ∃ i ∈ b.instructions, Core.read m i.address ≠ .ok i := by
  obtain ⟨samples, hinstructions, htorn, hstems⟩ := h.samples
  have hheld (x : Sample) (hx : x ∈ samples) :
      x.held = true ↔ Core.read m x.instruction.address = .ok x.instruction := by
    rw [(hstems x hx).held_iff hm (isValid_iff.mp hvalid), Core.read_eq_ok_iff]
    exact (and_iff_right rfl).symm
  rw [← htorn, ← hinstructions, List.any_eq_true]
  simp only [List.mem_map, exists_exists_and_eq_and]
  refine exists_congr fun x ↦ and_congr_right fun hx ↦ ?_
  rw [ne_eq, ← hheld x hx, Bool.not_eq_true', Bool.not_eq_true]

end Block


/-! ### One call -/

/-- A store changes frames behind pages of its address space only. -/
theorem Request.stored_perform {r : Request} (h : r.isStore = true) (runs : List SharedFrames)
    (m : Memory) : m.Stored (r.perform runs m).2 := by
  have hchange {ε : Type} {result : Except ε Memory}
      (hstored : ∀ m', result = .ok m' → m.Stored m') : m.Stored (Answer.ofChange m result).2 := by
    cases result with
    | error e => exact .refl m
    | ok m' => exact hstored m' rfl
  cases r with
  | write a bytes => exact hchange fun m' h' ↦ Memory.stored_write h'
  | poke a bytes => exact hchange fun m' h' ↦ Memory.stored_poke h'
  | writeNat a count value => exact hchange fun m' h' ↦ Memory.stored_write h'
  | update a size alignment f =>
    refine hchange fun m' h' ↦ ?_
    obtain ⟨_, hupdate⟩ := exists_ok_of_map_snd h'
    exact Memory.stored_atomicUpdate (Memory.atomicUpdate_of_aligned hupdate)
  | map | mapAnywhere | unmap | discard | protect => cases h

/-- Stores leave every page table as it is. -/
theorem World.spaces_after_stores (w : World) (stores : List ForeignStore) :
    (w.after (stores.map ForeignStore.action)).spaces = w.spaces := by
  induction stores generalizing w with
  | nil => rfl
  | cons store stores ih =>
    have hstored := store.request.stored_perform store.isStore w.runs (w.memory store.space)
    have hstep : (w.step store.action).2.spaces = w.spaces := by
      change (w.replace store.space (store.request.perform w.runs (w.memory store.space)).2).spaces =
        w.spaces
      rw [replace, hstored.space]
      exact Function.update_eq_self store.space w.spaces
    exact (ih _).trans hstep

namespace Contention

/-- A later moment, with nothing but stores in between. -/
structure Drifts (s t : Contention) : Prop where
  wellFormed : t.world.WellFormed
  spaces : t.world.spaces = s.world.spaces
  evolves : s.world.frames.Evolves t.world.frames
  accepted : t.accepted = s.accepted
  torn : t.torn = s.torn

variable {s t u : Contention}

theorem Drifts.refl (h : s.world.WellFormed) : s.Drifts s :=
  ⟨h, rfl, .refl _, rfl, rfl⟩

theorem Drifts.trans (h : s.Drifts t) (h' : t.Drifts u) : s.Drifts u :=
  ⟨h'.wellFormed, h'.spaces.trans h.spaces, h.evolves.trans h'.evolves,
    h'.accepted.trans h.accepted, h'.torn.trans h.torn⟩

theorem Drifts.space (h : s.Drifts t) (k : Nat) :
    (t.world.memory k).space = (s.world.memory k).space :=
  congrFun h.spaces k

theorem drifts_turn (h : s.world.WellFormed) : s.Drifts s.turn := by
  rw [turn]
  split
  · exact .refl h
  · rename_i stores foreign _
    obtain ⟨hafter, hevolves⟩ := h.after (stores.map ForeignStore.action)
    exact ⟨hafter, s.world.spaces_after_stores stores, hevolves, rfl, rfl⟩

end Contention

namespace Contended

variable {α β : Type} {c : Contended α} {f : α → Contended β} {s : Contention} {k : Nat}

/-- Begun in a state, a computation ends with a value and in a state of which `Q` holds. -/
def Gives (c : Contended α) (s : Contention) (Q : α → Contention → Prop) : Prop :=
  Q (c.run s).1 (c.run s).2

theorem Gives.bind {P : α → Contention → Prop} {Q : β → Contention → Prop} (h : c.Gives s P)
    (hf : ∀ v t, P v t → (f v).Gives t Q) : Gives (c >>= f) s Q :=
  hf _ _ h

theorem Gives.imp {P Q : α → Contention → Prop} (h : c.Gives s P)
    (hQ : ∀ v t, P v t → Q v t) : c.Gives s Q :=
  hQ _ _ h

theorem gives_look (h : s.world.WellFormed) (call : Memory → α) :
    (look k call).Gives s fun v t ↦ s.Drifts t ∧ v = call (t.world.memory k) :=
  ⟨Contention.drifts_turn h, rfl⟩

theorem gives_present_bind_iff {f : Memory → Contended β} {Q : β → Contention → Prop} :
    Gives (present k >>= f) s Q ↔ (f (s.world.memory k)).Gives s Q :=
  Iff.rfl

theorem gives_addPagesOf (h : s.world.WellFormed) {pages : List (Address × CodeStamp)}
    (hpages : ∀ p ∈ pages, (s.world.memory k).Bears p.1 p.2) (i : Instruction) :
    (addPagesOf k pages i).Gives s fun found t ↦ s.Drifts t ∧ ∀ pages', found = some pages' →
      (∀ p ∈ pages, p ∈ pages') ∧ (∀ p ∈ pages', (t.world.memory k).Bears p.1 p.2) ∧
        Covered pages' i.address ∧
          Covered pages' (i.address + BitVec.ofNat 64 (i.length - 1)) := by
  have hadd {s t : Contention} (hdrifts : s.Drifts t) {pages pages' : List (Address × CodeStamp)}
      (hpages : ∀ p ∈ pages, (s.world.memory k).Bears p.1 p.2) {page : Address}
      (h : Block.addPage (t.world.memory k) pages page = some pages') :
      ∀ p ∈ pages', (t.world.memory k).Bears p.1 p.2 := by
    intro p hp
    rcases (Block.addPage_eq_some h).2.1 p hp with hold | hnew
    · exact (hpages p hold).mono (hdrifts.space k) hdrifts.evolves
    · exact Memory.bears_of_codeStamp (hdrifts.wellFormed.memory k) hnew
  refine (gives_look h _).bind fun between t ⟨hdrifts, hbetween⟩ ↦ ?_
  cases between with
  | none => exact ⟨hdrifts, fun _ hsome ↦ nomatch hsome⟩
  | some between =>
    refine (gives_look hdrifts.wellFormed _).imp fun found u ⟨hdrifts', hfound⟩ ↦
      ⟨hdrifts.trans hdrifts', fun pages' hpages' ↦ ?_⟩
    have hfirst := hbetween.symm
    have hlast := hfound.symm.trans hpages'
    obtain ⟨hsub, -, stamp, hmem⟩ := Block.addPage_eq_some hfirst
    obtain ⟨hsub', -, stamp', hmem'⟩ := Block.addPage_eq_some hlast
    exact ⟨fun p hp ↦ hsub' p (hsub p hp), hadd hdrifts' (hadd hdrifts hpages hfirst) hlast,
      ⟨stamp, hsub' _ hmem⟩, stamp', hmem'⟩

end Contended

/-- In a well-formed world the instruction at hand, with whether memory has it, is a sample. -/
theorem World.WellFormed.stems_sample {w : World} (h : w.WellFormed) {k : Nat} {i : Instruction}
    {pages : List (Address × CodeStamp)} (hpages : ∀ p ∈ pages, (w.memory k).Bears p.1 p.2)
    (hfirst : Covered pages i.address)
    (hlast : Covered pages (i.address + BitVec.ofNat 64 (i.length - 1))) :
    Sample.Stems ⟨i, decide (Core.read (w.memory k) i.address = .ok i)⟩ pages w.frames := by
  obtain ⟨first, hfirst⟩ := hfirst
  obtain ⟨last, hlast⟩ := hlast
  refine ⟨w.memory k, h.memory k, .refl _, ?_, ⟨first, hfirst, hpages _ hfirst⟩, last, hlast,
    hpages _ hlast⟩
  exact decide_eq_true_iff.trans (Core.read_eq_ok_iff.trans (and_iff_right rfl))

namespace Contention

/-- What a straight run found: samples, and stamps that memory bears, those of before among them. -/
def Gathers (t : Contention) (k : Nat) (pages : List (Address × CodeStamp)) :
    Option (List Sample × List (Address × CodeStamp)) → Prop
  | none => True
  | some (samples, pages') => (∀ p ∈ pages, p ∈ pages') ∧
    (∀ p ∈ pages', (t.world.memory k).Bears p.1 p.2) ∧ ∀ x ∈ samples, x.Stems pages' t.world.frames

variable {t : Contention} {k : Nat} {pages pages' : List (Address × CodeStamp)}

theorem Gathers.none : t.Gathers k pages none := trivial

theorem Gathers.nil (h : ∀ p ∈ pages, (t.world.memory k).Bears p.1 p.2) :
    t.Gathers k pages (some ([], pages)) :=
  ⟨fun _ hp ↦ hp, h, fun _ hx ↦ absurd hx List.not_mem_nil⟩

/-- A sample in front of those that were found behind it. -/
theorem Gathers.cons {found : List Sample × List (Address × CodeStamp)} {x : Sample}
    {frames : FrameStore} (hsub : ∀ p ∈ pages, p ∈ pages') (hx : x.Stems pages' frames)
    (h : t.Gathers k pages' (some found)) (hevolves : frames.Evolves t.world.frames) :
    t.Gathers k pages (some (x :: found.1, found.2)) :=
  ⟨fun p hp ↦ h.1 p (hsub p hp), h.2.1, List.forall_mem_cons.mpr ⟨hx.mono h.1 hevolves, h.2.2⟩⟩

end Contention

namespace Contended

variable {s : Contention} {k : Nat}

/-- The straight run from an address on consists of samples with the stamps that were taken. -/
theorem gives_runFrom (entry : Address) (room : Nat) {a : Address}
    {pages : List (Address × CodeStamp)} (h : s.world.WellFormed)
    (hpages : ∀ p ∈ pages, (s.world.memory k).Bears p.1 p.2) :
    (runFrom k entry room a pages).Gives s fun found t ↦ s.Drifts t ∧ t.Gathers k pages found := by
  induction room generalizing a pages s with
  | zero => exact ⟨.refl h, .nil hpages⟩
  | succ room ih =>
    refine (gives_look h _).bind fun admissible t ⟨hdrifts, _⟩ ↦ ?_
    have hbears : ∀ p ∈ pages, (t.world.memory k).Bears p.1 p.2 := fun p hp ↦
      (hpages p hp).mono (hdrifts.space k) hdrifts.evolves
    cases admissible with
    | none => exact ⟨hdrifts, .nil hbears⟩
    | some i =>
      refine (gives_addPagesOf hdrifts.wellFormed hbears i).bind
        fun stamped u ⟨hdrifts', hstamped⟩ ↦ ?_
      have hlater := hdrifts.trans hdrifts'
      cases stamped with
      | none => exact ⟨hlater, .none⟩
      | some pages' =>
        obtain ⟨hsub, hbears', hfirst, hlast⟩ := hstamped pages' rfl
        have hsample := hlater.wellFormed.stems_sample hbears' hfirst hlast
        refine gives_present_bind_iff.mpr ?_
        by_cases hends : Block.endsWith entry i = true
        · simp only [hends, if_true]
          exact ⟨hlater, .cons hsub hsample (.nil hbears') (.refl _)⟩
        · simp only [hends, Bool.false_eq_true, if_false]
          refine (ih hlater.wellFormed hbears').bind fun found w ⟨hdrifts'', hfound⟩ ↦ ?_
          cases found with
          | none => exact ⟨hlater.trans hdrifts'', .none⟩
          | some found => exact ⟨hlater.trans hdrifts'', .cons hsub hsample hfound hdrifts''.evolves⟩

end Contended

/-! ### What a core keeps -/

/-- What was found current was so: a cached instruction is what memory has; a block was valid when
its check began, if it has one page also when the check ended, and whenever it is valid at one of
these moments, memory has its instructions unless it was torn. -/
def Acceptance.Right : Acceptance → Prop
  | .cached m i => Core.read m i.address = .ok i
  | .block began ended b torn =>
    b.isValid began = true ∧ (b.pages.length ≤ 1 → b.isValid ended = true) ∧
      ∀ m, m = began ∨ m = ended → b.isValid m = true →
        (torn = true ↔ ∃ i ∈ b.instructions, Core.read m i.address ≠ .ok i)

namespace Contention

/-- The memory is well formed, and what was written down is true. -/
structure Sound (s : Contention) : Prop where
  wellFormed : s.world.WellFormed
  torn (b : Block) : b ∈ s.torn → b.Sampled true s.world.frames
  accepted (a : Acceptance) : a ∈ s.accepted → a.Right

/-- A block was compiled from samples, and was torn if it was written down so. -/
def Vouches (s : Contention) (b : Block) : Prop :=
  b.Sampled (decide (b ∈ s.torn)) s.world.frames

/-- A later moment. -/
structure Leads (s t : Contention) : Prop where
  sound : t.Sound
  evolves : s.world.frames.Evolves t.world.frames
  torn (b : Block) : b ∈ s.torn → b ∈ t.torn

variable {s t u : Contention} {b : Block}

theorem Sound.vouches (h : s.Sound) (hb : b ∉ s.torn → b.Sampled false s.world.frames) :
    s.Vouches b := by
  rw [Vouches]
  by_cases hmem : b ∈ s.torn
  · rw [decide_eq_true hmem]
    exact h.torn b hmem
  · rw [decide_eq_false hmem]
    exact hb hmem

theorem Leads.refl (h : s.Sound) : s.Leads s :=
  ⟨h, .refl _, fun _ hb ↦ hb⟩

theorem Leads.trans (h : s.Leads t) (h' : t.Leads u) : s.Leads u :=
  ⟨h'.sound, h.evolves.trans h'.evolves, fun b hb ↦ h'.torn b (h.torn b hb)⟩

theorem Leads.vouches (h : s.Leads t) (hb : s.Vouches b) : t.Vouches b := by
  refine h.sound.vouches fun hnotMem ↦ ?_
  have hwhole : b ∉ s.torn := fun hmem ↦ hnotMem (h.torn b hmem)
  rw [Vouches, decide_eq_false hwhole] at hb
  exact hb.mono h.evolves

theorem Leads.each (h : s.Leads t) {table : BlockTable} (htable : table.Each s.Vouches) :
    table.Each t.Vouches :=
  fun n b hb ↦ h.vouches (htable n b hb)

theorem Drifts.leads (h : s.Drifts t) (hs : s.Sound) : s.Leads t := by
  refine ⟨⟨h.wellFormed, fun b hb ↦ ?_, fun a ha ↦ ?_⟩, h.evolves, fun b hb ↦ ?_⟩
  · rw [h.torn] at hb
    exact (hs.torn b hb).mono h.evolves
  · rw [h.accepted] at ha
    exact hs.accepted a ha
  · rw [h.torn]
    exact hb

/-- A torn block is written down. -/
theorem Sound.leads_torn (h : s.Sound) (hb : b.Sampled true s.world.frames) :
    s.Leads { s with torn := b :: s.torn } :=
  ⟨⟨h.wellFormed, List.forall_mem_cons.mpr ⟨hb, h.torn⟩, h.accepted⟩, .refl _,
    fun _ hmem ↦ List.mem_cons_of_mem b hmem⟩

/-- Something that is current is written down. -/
theorem Sound.leads_accepted (h : s.Sound) {a : Acceptance} (ha : a.Right) :
    s.Leads { s with accepted := a :: s.accepted } :=
  ⟨⟨h.wellFormed, h.torn, List.forall_mem_cons.mpr ⟨ha, h.accepted⟩⟩, .refl _, fun _ hmem ↦ hmem⟩

end Contention

namespace Contended

variable {s : Contention} {k : Nat} {t : BlockTable} {b : Block}

theorem gives_look_leads {α : Type} (hs : s.Sound) (call : Memory → α) :
    (look k call).Gives s fun v t ↦ s.Leads t ∧ v = call (t.world.memory k) :=
  (gives_look hs.wellFormed call).imp fun _ _ h ↦ ⟨h.1.leads hs, h.2⟩

/-- Pages with stamps of the past are checked one after the other. If all are found to have their
stamps, all had them when the check began. -/
theorem gives_allM_look {pages : List (Address × CodeStamp)} (h : s.world.WellFormed)
    (hpast : ∀ p ∈ pages, p.2.first.Past s.world.frames) :
    (pages.allM fun (page, stamp) ↦ look k (·.hasStamp page stamp)).Gives s fun current t ↦
      s.Drifts t ∧ (current = true → (s.world.memory k).Stamped pages ∧
        (pages.length ≤ 1 → (t.world.memory k).Stamped pages)) := by
  induction pages generalizing s with
  | nil =>
    exact ⟨.refl h, fun _ ↦ ⟨fun p hp ↦ absurd hp List.not_mem_nil,
      fun _ p hp ↦ absurd hp List.not_mem_nil⟩⟩
  | cons page rest ih =>
    rw [List.forall_mem_cons] at hpast
    refine (gives_look h _).bind fun found t ⟨hdrifts, hfound⟩ ↦ ?_
    cases found with
    | false => exact ⟨hdrifts, fun hcurrent ↦ nomatch hcurrent⟩
    | true =>
      have hpage := Memory.hasStamp_iff.mp hfound.symm
      -- stores only move versions on, so a stamp of the past that is current at this call was
      -- current before the stores that came ahead of it
      have hearlier {p : Address × CodeStamp} (hp : p.2.first.Past s.world.frames)
          (hcurrent : (t.world.memory k).codeStamp p.1 1 = .ok p.2) :
          (s.world.memory k).codeStamp p.1 1 = .ok p.2 :=
        Memory.codeStamp_eq_of_past hp (hdrifts.space k) hdrifts.evolves hcurrent
      cases rest with
      | nil =>
        exact ⟨hdrifts, fun _ ↦ ⟨List.forall_mem_singleton.mpr (hearlier hpast.1 hpage),
          fun _ ↦ List.forall_mem_singleton.mpr hpage⟩⟩
      | cons next rest =>
        refine (ih hdrifts.wellFormed fun p hp ↦ (hpast.2 p hp).mono hdrifts.evolves).imp
          fun current u ⟨hdrifts', hrest⟩ ↦ ⟨hdrifts.trans hdrifts', fun hcurrent ↦ ⟨?_, fun hone ↦
            absurd hone (by simp)⟩⟩
        exact List.forall_mem_cons.mpr ⟨hearlier hpast.1 hpage, fun p hp ↦
          hearlier (hpast.2 p hp) ((hrest hcurrent).1 p hp)⟩

/-- A check of a block is right. -/
theorem gives_check (hs : s.Sound) (hb : s.Vouches b) :
    (check k b).Gives s fun _ t ↦ s.Leads t := by
  refine gives_present_bind_iff.mpr
    ((gives_allM_look hs.wellFormed hb.past).bind fun current t ⟨hdrifts, hcurrent⟩ ↦ ?_)
  have hleads := hdrifts.leads hs
  cases current with
  | false => exact hleads
  | true =>
    obtain ⟨hbegan, hended⟩ := hcurrent rfl
    have hright : Acceptance.Right
        (.block (s.world.memory k) (t.world.memory k) b (decide (b ∈ t.torn))) := by
      refine ⟨Block.isValid_iff.mpr hbegan, fun hone ↦ Block.isValid_iff.mpr (hended hone), ?_⟩
      rintro m (rfl | rfl) hvalid
      · rw [hdrifts.torn]
        exact Block.Sampled.torn_iff (m := s.world.memory k) hb (hs.wellFormed.memory k) hvalid
      · exact Block.Sampled.torn_iff (m := t.world.memory k) (hleads.vouches hb)
          (hdrifts.wellFormed.memory k) hvalid
    exact hleads.trans (hleads.sound.leads_accepted hright)

/-- What is compiled was sampled. -/
theorem gives_compile? (hs : s.Sound) (entry : Address) (maxLength : Nat) :
    (compile? k entry maxLength).Gives s fun found t ↦
      s.Leads t ∧ ∀ b, found = some b → t.Vouches b := by
  have hnone : ∀ p ∈ ([] : List (Address × CodeStamp)), (s.world.memory k).Bears p.1 p.2 :=
    fun p hp ↦ absurd hp List.not_mem_nil
  refine (gives_runFrom entry _ hs.wellFormed hnone).bind fun found t ⟨hdrifts, hfound⟩ ↦ ?_
  have hleads := hdrifts.leads hs
  cases found with
  | none => exact ⟨hleads, fun b hb ↦ nomatch hb⟩
  | some found =>
    obtain ⟨samples, pages⟩ := found
    obtain ⟨-, hbears, hstems⟩ := hfound
    let block : Block := ⟨entry, samples.map (·.instruction), pages⟩
    have hsampled : block.Sampled (samples.any (!·.held)) t.world.frames :=
      ⟨fun p hp ↦ (hbears p hp).past, samples, rfl, rfl, hstems⟩
    by_cases hempty : samples.isEmpty = true
    · simp only [hempty, if_true]
      exact ⟨hleads, fun b hb ↦ nomatch hb⟩
    · simp only [hempty, Bool.false_eq_true, if_false]
      by_cases htorn : samples.any (!·.held) = true
      · simp only [htorn, if_true]
        rw [htorn] at hsampled
        have hnow := hleads.sound.leads_torn hsampled
        refine ⟨hleads.trans hnow, fun b hb ↦ ?_⟩
        rw [← Option.some.inj hb]
        exact hnow.sound.vouches fun hnotMem ↦ absurd List.mem_cons_self hnotMem
      · simp only [htorn, Bool.false_eq_true, if_false]
        rw [Bool.not_eq_true] at htorn
        rw [htorn] at hsampled
        refine ⟨hleads, fun b hb ↦ ?_⟩
        rw [← Option.some.inj hb]
        exact hleads.sound.vouches fun _ ↦ hsampled

theorem gives_compileAt (hs : s.Sound) (ht : t.Each s.Vouches) (a : Address) :
    (compileAt k t a).Gives s fun r s' ↦ s.Leads s' ∧ r.2.Each s'.Vouches := by
  refine (gives_compile? hs a t.maxLength).bind fun found s' ⟨hleads, hfound⟩ ↦ ?_
  cases found with
  | some block =>
    have hcounted : BlockTable.Each s'.Vouches { t with
        stats.compiled := t.stats.compiled + 1
        stats.runs := t.stats.runs + 1 } := hleads.each ht
    refine ⟨hleads, BlockTable.each_insertSlot hcounted a fun b hb ↦ ?_⟩
    rw [← BlockSlot.compiled.inj hb]
    exact hfound block rfl
  | none =>
    refine (gives_look_leads hleads.sound _).bind fun stamp s'' ⟨hnow, _⟩ ↦ ?_
    have hlater := hleads.trans hnow
    have hkept := hlater.each ht
    cases stamp with
    | error fault => exact ⟨hlater, hkept⟩
    | ok stamp => exact ⟨hlater, BlockTable.each_insertSlot hkept a fun b hb ↦ by cases hb⟩

theorem gives_enter (hs : s.Sound) (ht : t.Each s.Vouches) (a : Address) :
    (enter k t a).Gives s fun r s' ↦ s.Leads s' ∧ r.2.Each s'.Vouches := by
  have hwarm : (t.warm a).Each s.Vouches := ht
  rw [enter]
  split
  · exact ⟨.refl hs, hwarm⟩
  · exact gives_compileAt hs hwarm a

/-- The blocks of a table were sampled, and so are those that it has after it was asked. -/
theorem gives_lookup (hs : s.Sound) (ht : t.Each s.Vouches) (a : Address) :
    (lookup k t a).Gives s fun r s' ↦ s.Leads s' ∧ r.2.Each s'.Vouches := by
  -- what is left of the table after a check or a look still has to be entered
  have henter {s' : Contention} {t' : BlockTable} (hleads : s.Leads s')
      (ht' : t'.Each s.Vouches) :
      (enter k t' a).Gives s' fun r u ↦ s.Leads u ∧ r.2.Each u.Vouches :=
    (gives_enter hleads.sound (hleads.each ht') a).imp fun _ _ h ↦ ⟨hleads.trans h.1, h.2⟩
  rw [lookup]
  cases hslot : t.slots[a.toNat]? with
  | none => exact henter (.refl hs) ht
  | some slot =>
    cases slot with
    | compiled block =>
      refine (gives_check hs (ht _ block hslot)).bind fun valid s' hleads ↦ ?_
      cases valid with
      | true => exact ⟨hleads, hleads.each ht⟩
      | false => exact henter hleads (BlockTable.each_invalidate ht a)
    | rejected stamp =>
      refine (gives_look_leads hs _).bind fun current s' h ↦ ?_
      obtain ⟨hleads, -⟩ := h
      cases current with
      | true => exact ⟨hleads, hleads.each ht⟩
      | false => exact henter hleads (BlockTable.each_erase ht rfl)

end Contended

/-! ### Cores -/

/-- The decode cache of a core stems from earlier memories, and the blocks of its table were
sampled. -/
structure Core.Vouched (c : Core) (s : Contention) : Prop where
  cache : c.CacheStems s.world.frames
  blocks (t : BlockTable) : c.blocks = some t → t.Each s.Vouches

theorem Core.Vouched.later {c c' : Core} {s t : Contention} (h : c.Vouched s) (hleads : s.Leads t)
    (hcache : c'.CacheStems t.world.frames) (hblocks : c'.blocks = c.blocks) : c'.Vouched t :=
  ⟨hcache, fun table htable ↦ hleads.each (h.blocks table (hblocks ▸ htable))⟩

theorem Core.CacheStems.mono {c : Core} {frames frames' : FrameStore} (h : c.CacheStems frames)
    (hevolves : frames.Evolves frames') : c.CacheStems frames' :=
  fun cache hcache n e he ↦ (h cache hcache n e he).mono hevolves

theorem Core.Vouched.mono {c : Core} {s t : Contention} (h : c.Vouched s) (hleads : s.Leads t) :
    c.Vouched t :=
  h.later hleads (h.cache.mono hleads.evolves) rfl

namespace Contended

variable {s : Contention} {k : Nat} {c : Core}

/-- What the decode cache gives out is right. -/
theorem gives_fetch (hs : s.Sound) (hc : c.Vouched s) (a : Address) :
    (fetch k c a).Gives s fun r t ↦ s.Leads t ∧ r.2.Vouched t := by
  refine (gives_look_leads hs _).bind fun answer t hanswered ↦ ?_
  obtain ⟨hleads, hanswer⟩ := hanswered
  cases answer with
  | error p => exact ⟨hleads, hc.mono hleads⟩
  | ok found =>
    obtain ⟨instruction, c'⟩ := found
    obtain ⟨hcache, hcurrent⟩ := Core.cacheStems_lookup (m := t.world.memory k)
      (hc.cache.mono hleads.evolves) hanswer.symm
    have hvouched := hc.later hleads hcache (Core.blocks_lookup hanswer.symm).1
    cases instruction with
    | some i =>
      obtain ⟨rfl, hdecodes⟩ := hcurrent i rfl
      have hnow := hleads.sound.leads_accepted (a := .cached (t.world.memory k) i)
        (Core.read_of_decodes hdecodes)
      exact ⟨hleads.trans hnow, hvouched.mono hnow⟩
    | none =>
      refine (gives_look_leads hleads.sound _).bind fun fetched u hlooked ↦ ?_
      obtain ⟨hnow, hfetched⟩ := hlooked
      have hlater := hleads.trans hnow
      have hvouched' := hvouched.mono hnow
      cases fetched with
      | error fault => exact ⟨hlater, hvouched'⟩
      | ok fetched =>
        obtain ⟨window, stamp⟩ := fetched
        cases hdecode : decode .bits64 a window with
        | ok i =>
          simp only [hdecode, Core.keep]
          cases hremember : c'.remember (stamp.restrict a i.length) i with
          | error p => exact ⟨hlater, hvouched'⟩
          | ok c'' =>
            exact ⟨hlater, hvouched'.later (.refl hlater.sound)
              (Core.cacheStems_remember hvouched'.cache (hlater.sound.wellFormed.memory k)
                hfetched.symm hdecode hremember) (Core.blocks_remember hremember).1⟩
        | error error =>
          simp only [hdecode]
          refine (gives_look_leads hlater.sound _).bind fun failure w hlooked' ↦ ?_
          exact ⟨hlater.trans hlooked'.1, hvouched'.mono hlooked'.1⟩

end Contended

namespace Duty

variable {s : Contention} {c : Core}

/-- Whatever a core does, what is written down stays true. -/
theorem gives_perform (hs : s.Sound) (hc : c.Vouched s) (duty : Duty) :
    (duty.perform c).Gives s fun c' t ↦ t.Sound ∧ c'.Vouched t := by
  have hswap {t : Contention} (hleads : s.Leads t) {table : BlockTable}
      (hkept : table.Each t.Vouches) :
      t.Sound ∧ Core.Vouched { c with blocks := some table } t :=
    ⟨hleads.sound, hc.cache.mono hleads.evolves, fun table' htable' ↦
      Option.some.inj htable' ▸ hkept⟩
  cases duty with
  | fetch k a =>
    exact (Contended.gives_fetch hs hc a).bind fun r t ⟨hleads, hvouched⟩ ↦
      ⟨hleads.sound, hvouched⟩
  | enter k a =>
    rw [perform]
    cases hblocks : c.blocks with
    | none => exact ⟨hs, hc⟩
    | some table =>
      exact (Contended.gives_lookup hs (hc.blocks table hblocks) a).bind
        fun r t ⟨hleads, hkept⟩ ↦ hswap hleads hkept
  | recheck k a =>
    rw [perform]
    cases hblocks : c.blocks with
    | none => exact ⟨hs, hc⟩
    | some table =>
      have htable := hc.blocks table hblocks
      dsimp only
      cases hslot : table.slots[a.toNat]? with
      | none => exact ⟨hs, hc⟩
      | some slot =>
        cases slot with
        | rejected stamp => exact ⟨hs, hc⟩
        | compiled block =>
          refine (Contended.gives_check hs (htable _ block hslot)).bind fun valid t hleads ↦ ?_
          cases valid with
          | true => exact ⟨hleads.sound, hc.mono hleads⟩
          | false =>
            exact hswap hleads (hleads.each (BlockTable.each_invalidate htable block.entry))
  | flush =>
    refine ⟨hs, (Core.coherent_flush c s.world.frames).cache, fun table htable n b hb ↦ ?_⟩
    obtain ⟨table', _, rfl⟩ := Option.map_eq_some_iff.mp htable
    exact nomatch hb
  | act action =>
    obtain ⟨hwellFormed, hevolves⟩ := hs.wellFormed.step action
    have hleads : s.Leads { s with world := (s.world.step action).2 } :=
      ⟨⟨hwellFormed, fun b hb ↦ (hs.torn b hb).mono hevolves, hs.accepted⟩, hevolves,
        fun _ hb ↦ hb⟩
    exact ⟨hleads.sound, hc.mono hleads⟩

theorem gives_foldlM (hs : s.Sound) (hc : c.Vouched s) (duties : List Duty) :
    (duties.foldlM perform c).Gives s fun c' t ↦ t.Sound ∧ c'.Vouched t := by
  induction duties generalizing s c with
  | nil => exact ⟨hs, hc⟩
  | cons duty duties ih =>
    rw [List.foldlM_cons]
    exact (gives_perform hs hc duty).bind fun c' t ⟨hsound, hvouched⟩ ↦ ih hsound hvouched

end Duty

/-- Whether the decode cache gave out an instruction. -/
def Acceptance.isCached : Acceptance → Bool
  | .cached _ _ => true
  | .block .. => false

/-- Whether a block was accepted with an instruction that memory had neither when the check began
nor when it ended. -/
def Acceptance.isStale : Acceptance → Bool
  | .cached _ _ => false
  | .block began ended b _ => b.instructions.any fun i ↦
    decide ¬ (Core.read began i.address = .ok i ∨ Core.read ended i.address = .ok i)

namespace Contention

/-- A machine in which nothing has happened, with stores of other threads to come. -/
def start (windows : Nat → MapWindow) (foreign : List (List ForeignStore)) : Contention where
  world := .start windows
  foreign := foreign

/-- What there is after a new core did its duties. -/
def after (s : Contention) (config : CoreConfig) (duties : List Duty) : Contention :=
  ((duties.foldlM Duty.perform (Core.ofConfig config)).run s).2

/-- Other threads may store whenever they like. Still, an instruction that the decode cache gives
out is the one that memory has at that moment. A block that is found valid was valid when its check
began, and if it has one page also when the check ended; and at those of the two moments at which it
is valid, memory has each of its instructions, unless it was torn. Torn blocks are stale indeed:
such a block has an instruction that memory does not have. -/
theorem accepted_right (windows : Nat → MapWindow) (foreign : List (List ForeignStore))
    (config : CoreConfig) (duties : List Duty) :
    let s := (start windows foreign).after config duties
    (∀ m i, .cached m i ∈ s.accepted → Core.read m i.address = .ok i) ∧
      ∀ began ended b torn, .block began ended b torn ∈ s.accepted →
        b.isValid began = true ∧ (b.pages.length ≤ 1 → b.isValid ended = true) ∧
          ∀ m, m = began ∨ m = ended → b.isValid m = true →
            (torn = true ↔ ∃ i ∈ b.instructions, Core.read m i.address ≠ .ok i) := by
  intro s
  have hstart : (start windows foreign).Sound :=
    ⟨World.wellFormed_start windows, fun b hb ↦ absurd hb List.not_mem_nil,
      fun a ha ↦ absurd ha List.not_mem_nil⟩
  have hnew : (Core.ofConfig config).Vouched (start windows foreign) := by
    refine ⟨(Core.coherent_ofConfig config _).cache, fun table htable n b hb ↦ ?_⟩
    obtain ⟨threshold, _, rfl⟩ := Option.map_eq_some_iff.mp htable
    exact nomatch hb
  have hsound : s.Sound := (Duty.gives_foldlM hstart hnew duties).1
  exact ⟨fun m i ↦ hsound.accepted (.cached m i),
    fun began ended b torn ↦ hsound.accepted (.block began ended b torn)⟩

/-- Code is mapped, stored, entered twice and fetched twice. -/
def enteredTwice (code : List UInt8) : List Duty :=
  [.act (.request 0 (.map 0x1000 0x1000 ⟨true, true, true⟩ .anonymous)),
    .act (.request 0 (.poke 0x1000 code)), .enter 0 0x1000, .enter 0 0x1000, .fetch 0 0x1000,
    .fetch 0 0x1000]

/-- A `ret` is compiled, and between its fetch and the stamp of its page another thread stores `nop`
in its place. -/
def overwritten : Contention :=
  (start (fun _ ↦ {}) [[], [⟨0, .write 0x1000 [0x90], rfl⟩]]).after { hotThreshold := some 1 }
    (enteredTwice [0xc3])

/-- The block with the `ret` is found valid although memory does not have its instruction. -/
theorem exists_stale_overwritten :
    ∃ began ended b torn, .block began ended b torn ∈ overwritten.accepted ∧
      ∃ i ∈ b.instructions,
        ¬(Core.read began i.address = .ok i ∨ Core.read ended i.address = .ok i) := by
  have hstale : overwritten.accepted.any Acceptance.isStale = true := by decide +kernel
  obtain ⟨a, ha, hisStale⟩ := List.any_eq_true.mp hstale
  cases a with
  | cached m i => cases hisStale
  | block began ended b torn =>
    obtain ⟨i, hi, hread⟩ := List.any_eq_true.mp hisStale
    exact ⟨began, ended, b, torn, ha, i, hi, of_decide_eq_true hread⟩

/-- That block was torn, and the instruction that the cache gives out afterwards is the one in
memory. -/
theorem accepted_right_overwritten :
    (∃ began ended b torn, .block began ended b torn ∈ overwritten.accepted ∧ torn = true) ∧
      ∃ m i, .cached m i ∈ overwritten.accepted ∧ Core.read m i.address = .ok i := by
  obtain ⟨hcached, hblocks⟩ := accepted_right (fun _ ↦ {})
    [[], [⟨0, .write 0x1000 [0x90], rfl⟩]] { hotThreshold := some 1 } (enteredTwice [0xc3])
  obtain ⟨began, ended, b, torn, hblock, i, hi, hread⟩ := exists_stale_overwritten
  obtain ⟨hvalid, -, htorn⟩ := hblocks began ended b torn hblock
  refine ⟨⟨began, ended, b, torn, hblock, (htorn began (.inl rfl) hvalid).mpr
    ⟨i, hi, fun hsame ↦ hread (.inl hsame)⟩⟩, ?_⟩
  have hgiven : overwritten.accepted.any Acceptance.isCached = true := by decide +kernel
  obtain ⟨a, ha, hisCached⟩ := List.any_eq_true.mp hgiven
  cases a with
  | cached m i => exact ⟨m, i, ha, hcached m i ha⟩
  | block began ended b torn => cases hisCached

/-- A block of which memory does not have an instruction, when its check began or when it ended, can
be found valid: it was compiled from a `ret`, has the stamp of the page with the `nop`, and is found
valid from then on. -/
theorem not_accepted_right :
    ¬ ∀ (windows : Nat → MapWindow) (foreign : List (List ForeignStore)) (config : CoreConfig)
      (duties : List Duty) (began ended : Memory) (b : Block) (torn : Bool),
      .block began ended b torn ∈ ((start windows foreign).after config duties).accepted →
      ∀ i ∈ b.instructions,
        Core.read began i.address = .ok i ∨ Core.read ended i.address = .ok i := by
  intro h
  obtain ⟨began, ended, b, torn, hblock, i, hi, hread⟩ := exists_stale_overwritten
  exact hread (h _ _ _ _ began ended b torn hblock i hi)

end Contention

end LongMode
