import LongMode.Proofs.Memory.Ranges
import LongMode.Proofs.Memory.Refusals
import LongMode.Proofs.Memory.Updates
import LongMode.Proofs.Memory.World

/-!
What holds of every address space that requests can lead to. The first address of each mapped page
is a page boundary, and at least two pages below 2^64: a range of pages is accepted only if its end
is a word, and so is the mapping window. The end of a mapped page is therefore a word too
(`Memory.WellFormed.add_pageSize_lt`), and the sums that lead from a mapped page to the next one
do not wrap.

A request is carried out in place (`Request.carryOut`), and this is what `Request.perform` says of
it (`Request.perform_eq`). Whatever a request is refused for, it is found before anything changes
(`Request.guarded_carryOut`); and what is done to a range of pages leaves the other pages alone
(`Request.altersOnly_carryOut`).
-/

set_option autoImplicit false
set_option relaxedAutoImplicit false

namespace LongMode

/-! ### Bounds of a page table -/

namespace AddressSpace

variable {s : AddressSpace}

theorem mem_entries {base : Address} {p : Page} :
    (base, p) ∈ s.entries ↔ ∃ number, s.pages[number]? = some p ∧ .ofPage number = base := by
  rw [entries, List.mem_map]
  constructor
  · rintro ⟨⟨number, q⟩, hentry, heq⟩
    obtain ⟨hbase, rfl⟩ := Prod.mk.inj heq
    exact ⟨number, (s.mem_toList_iff number q).mp hentry, hbase⟩
  · rintro ⟨number, hpage, rfl⟩
    exact ⟨(number, p), (s.mem_toList_iff number p).mpr hpage, rfl⟩

theorem mem_bases {start stop base : Address} (h : base ∈ s.bases start stop) :
    ∃ p, (base, p) ∈ s.entries := by
  rw [bases, List.mem_map] at h
  obtain ⟨number, hnumber, rfl⟩ := h
  have hmapped := (List.mem_filter.mp hnumber).1
  rw [Std.ExtTreeMap.mem_keys, Std.ExtTreeMap.mem_iff_isSome_getElem?, Option.isSome_iff_exists]
    at hmapped
  obtain ⟨p, hp⟩ := hmapped
  exact ⟨p, mem_entries.mpr ⟨number, hp, rfl⟩⟩

end AddressSpace

namespace Memory

variable {m : Memory}

/-- Pages of which the end is a word begin at page boundaries, two pages below 2^64 or lower, and
are found by the addresses that they begin with. -/
theorem WellFormed.of_mem_entries (hm : m.WellFormed) {base : Address} {p : Page}
    (h : (base, p) ∈ m.space.entries) :
    base.toNat % 4096 = 0 ∧ base.toNat ≤ 2 ^ 64 - 8192 ∧ m.page? base = some p := by
  obtain ⟨number, hpage, rfl⟩ := AddressSpace.mem_entries.mp h
  have hend := hm.page_lt number p hpage
  have hnumber : number * pageSize < addressLimit :=
    Nat.lt_of_le_of_lt (Nat.mul_le_mul_right _ (Nat.le_succ number)) hend
  rw [page?, Address.page_ofPage hnumber, Address.toNat_ofPage hnumber]
  simp only [pageSize, addressLimit] at hend ⊢
  exact ⟨by omega, by omega, hpage⟩

/-- The page of a mapped address is an entry of the table. -/
theorem mem_entries_of_page? {a : Address} {p : Page} (h : m.page? a = some p) :
    (a.pageFloor, p) ∈ m.space.entries :=
  AddressSpace.mem_entries.mpr ⟨a.page, h, rfl⟩

/-- The sum that leads from the page of a mapped address to the next page does not wrap. -/
theorem WellFormed.add_pageSize_lt (hm : m.WellFormed) {a : Address} {p : Page}
    (h : m.page? a = some p) : a.pageFloor.toNat + pageSize < addressLimit :=
  Address.toNat_ofPage_add_lt (hm.page_lt a.page p h)

end Memory

/-! ### Refusals -/

namespace InPlace

variable {ε ε' α β : Type}

/-- What is refused leaves memory as it was. -/
def Guarded (c : InPlace ε α) : Prop :=
  ∀ m e after, c.run.run m = (.error e, after) → after = m

/-- What comes to the same as an operation that settles first is refused before it changes
anything. -/
theorem guarded_of_settles {c : InPlace ε α} {x : Memory → Except ε (α × Memory)}
    (h : ∀ m, c.run.run m = m.settle (x m)) : Guarded c := fun m _ _ hrun ↦
  (Memory.settle_eq_error_iff.mp ((h m).symm.trans hrun)).1

theorem guarded_throw (e : ε) : Guarded (throw e : InPlace ε α) := fun _ _ _ hrun ↦
  (Prod.mk.inj hrun).2.symm

/-- A part that changes nothing may come before one that is refused in time. -/
theorem Guarded.bind {c : InPlace ε α} {f : α → InPlace ε β} (hc : ∀ m, (c.run.run m).2 = m)
    (hf : ∀ v, Guarded (f v)) : Guarded (c >>= f) := by
  intro m e after hrun
  cases hfirst : c.run.run m with
  | mk outcome m' =>
    have hsame : m' = m := by rw [← hc m, hfirst]
    subst hsame
    cases outcome with
    | error e' =>
      rw [run_bind_of_error hfirst] at hrun
      exact (Prod.mk.inj hrun).2.symm
    | ok v =>
      rw [Ends.run_bind hfirst] at hrun
      exact hf v m' e after hrun

section Update

variable {size : Nat} (f : BitVec (8 * size) → BitVec (8 * size) × α)

/-- An update whose bytes are at hand is not refused. -/
theorem guarded_exchange (bytes : List UInt8) (put : List UInt8 → FrameStore → FrameStore) :
    Guarded (exchange f bytes put) := by
  intro m e after hrun
  simp only [exchange] at hrun
  split at hrun <;> cases (Prod.mk.inj hrun).1

/-- An update of a cell of any size asks everything before it stores. -/
theorem guarded_update (a : Address) : Guarded (update f a) := by
  refine .bind (fun _ ↦ rfl) fun m ↦ .bind (fun _ ↦ rfl) fun _ ↦ .bind (fun _ ↦ rfl) fun m' ↦
    .bind (fun _ ↦ rfl) fun _ ↦ .bind (fun _ ↦ rfl) fun m'' ↦ .bind (fun _ ↦ rfl) fun first ↦ ?_
  dsimp only
  split
  · exact .bind (fun _ ↦ rfl) fun _ ↦ guarded_exchange f _ _
  · refine .bind (fun _ ↦ rfl) fun m ↦ .bind (fun _ ↦ rfl) fun second ↦ ?_
    split
    · exact .bind (fun _ ↦ rfl) fun _ ↦ guarded_exchange f _ _
    · exact .bind (fun _ ↦ rfl) fun _ ↦ guarded_exchange f _ _

theorem guarded_updateAligned (a : Address) (alignment : Nat) :
    Guarded (updateAligned f a alignment) := by
  rw [updateAligned]
  split
  · exact guarded_throw _
  · exact guarded_update f a

end Update

/-- A computation with its answer and its refusal put in other words. -/
def answer (refusal : ε → ε') (g : α → β) (c : InPlace ε α) : InPlace ε' β :=
  ExceptT.mk do return ((← c.run).mapError refusal).map g

variable {refusal : ε → ε'} {g : α → β} {c : InPlace ε α} {m after : Memory}

theorem run_answer : (answer refusal g c).run.run m =
    ((((c.run.run m).1).mapError refusal).map g, (c.run.run m).2) :=
  rfl

theorem Guarded.answer (h : Guarded c) : Guarded (answer refusal g c) := by
  intro m e after hrun
  rw [run_answer] at hrun
  obtain ⟨houtcome, rfl⟩ := Prod.mk.inj hrun
  cases hc : c.run.run m with
  | mk outcome m' =>
    rw [hc] at houtcome
    cases outcome with
    | error e' => exact h m e' m' hc
    | ok v => nomatch houtcome

theorem ends_answer_iff {w : β} :
    Ends (InPlace.answer refusal g c) m w after ↔ ∃ v, g v = w ∧ Ends c m v after := by
  rw [Ends, run_answer]
  simp only [Ends]
  cases c.run.run m with
  | mk outcome m' =>
    cases outcome with
    | error e =>
      constructor
      · intro h
        cases (Prod.mk.inj h).1
      · rintro ⟨_, _, h⟩
        cases (Prod.mk.inj h).1
    | ok v =>
      constructor
      · intro h
        obtain ⟨hv, rfl⟩ := Prod.mk.inj h
        exact ⟨v, Except.ok.inj hv, rfl⟩
      · rintro ⟨v', rfl, h⟩
        obtain ⟨hv, rfl⟩ := Prod.mk.inj h
        cases hv
        rfl

end InPlace

/-! ### Requests in place -/

/-- Why a request is refused. -/
inductive Refusal where
  /-- The page table cannot be changed so. -/
  | mapping (e : MapError)
  /-- The bytes cannot be stored. -/
  | access (fault : MemoryFault)
  /-- The run of frames was not made. -/
  | noRun

namespace Request

/-- Carry out a request in place. -/
def carryOut (runs : List SharedFrames) : Request → InPlace Refusal Answer
  | map start length p source =>
    match source.backing? runs with
    | some b => (InPlace.map start length p b).answer .mapping (.placed ·.first)
    | none => throw .noRun
  | mapAnywhere length p source =>
    match source.backing? runs with
    | some b => (InPlace.mapAnywhere length p b).answer .mapping (.placed ·.first)
    | none => throw .noRun
  | unmap start length => (InPlace.unmap start length).answer .mapping fun _ ↦ .done
  | discard start length => (InPlace.discardPages start length).answer .mapping fun _ ↦ .done
  | protect start length p => (InPlace.protect start length p).answer .mapping fun _ ↦ .done
  | write a bytes => (InPlace.write a bytes).answer .access fun _ ↦ .done
  | poke a bytes => (InPlace.poke a bytes).answer .access fun _ ↦ .done
  | writeNat a count value =>
    (InPlace.write a (LittleEndian.ofNat count value)).answer .access fun _ ↦ .done
  | update a _ alignment f =>
    (InPlace.updateAligned (fun old ↦ (f old, ())) a alignment).answer .access fun _ ↦ .done

/-- Whatever a request is refused for, it is found before anything changes. -/
theorem guarded_carryOut (runs : List SharedFrames) (r : Request) :
    InPlace.Guarded (r.carryOut runs) := by
  cases r with
  | map start length p source =>
    simp only [carryOut]
    cases source.backing? runs with
    | none => exact InPlace.guarded_throw _
    | some b => exact (InPlace.guarded_of_settles fun m ↦ InPlace.run_map m start length p b).answer
  | mapAnywhere length p source =>
    simp only [carryOut]
    cases source.backing? runs with
    | none => exact InPlace.guarded_throw _
    | some b =>
      exact (InPlace.guarded_of_settles fun m ↦ InPlace.run_mapAnywhere m length p b).answer
  | unmap start length =>
    exact (InPlace.guarded_of_settles fun m ↦ InPlace.run_unmap m start length).answer
  | discard start length =>
    exact (InPlace.guarded_of_settles fun m ↦ InPlace.run_discardPages m start length).answer
  | protect start length p =>
    exact (InPlace.guarded_of_settles fun m ↦ InPlace.run_protect m start length p).answer
  | write a bytes => exact (InPlace.guarded_of_settles fun m ↦ InPlace.run_write m a bytes).answer
  | poke a bytes => exact (InPlace.guarded_of_settles fun m ↦ InPlace.run_poke m a bytes).answer
  | writeNat a count value =>
    exact (InPlace.guarded_of_settles fun m ↦ InPlace.run_write m a _).answer
  | update a size alignment f => exact (InPlace.guarded_updateAligned _ a alignment).answer

/-- Whether a request asks for a cell that is not empty and does not go beyond the next page. -/
def Fits : Request → Prop
  | update _ size _ _ => 0 < size ∧ size ≤ pageSize
  | _ => True

/-- Carrying out a request in place comes to what performing it says. -/
theorem perform_eq (runs : List SharedFrames) (m : Memory) {r : Request} (hr : r.Fits) :
    r.perform runs m =
      (((r.carryOut runs).run.run m).1.toOption.getD .refused,
        ((r.carryOut runs).run.run m).2) := by
  cases r with
  | map start length p source =>
    simp only [carryOut, perform]
    cases source.backing? runs with
    | none => rfl
    | some b =>
      simp only [InPlace.run_answer, InPlace.run_map]
      cases m.map start length p b <;> rfl
  | mapAnywhere length p source =>
    simp only [carryOut, perform]
    cases source.backing? runs with
    | none => rfl
    | some b =>
      simp only [InPlace.run_answer, InPlace.run_mapAnywhere]
      cases m.mapAnywhere length p b <;> rfl
  | unmap start length =>
    simp only [carryOut, perform, InPlace.run_answer, InPlace.run_unmap]
    cases m.unmap start length <;> rfl
  | discard start length =>
    simp only [carryOut, perform, InPlace.run_answer, InPlace.run_discardPages]
    cases m.discard start length <;> rfl
  | protect start length p =>
    simp only [carryOut, perform, InPlace.run_answer, InPlace.run_protect]
    cases m.protect start length p <;> rfl
  | write a bytes =>
    simp only [carryOut, perform, InPlace.run_answer, InPlace.run_write]
    cases m.write a bytes <;> rfl
  | poke a bytes =>
    simp only [carryOut, perform, InPlace.run_answer, InPlace.run_poke]
    cases m.poke a bytes <;> rfl
  | writeNat a count value =>
    simp only [carryOut, perform, InPlace.run_answer, InPlace.run_write, Memory.writeNat]
    cases m.write a (LittleEndian.ofNat count value) <;> rfl
  | update a size alignment f =>
    simp only [carryOut, perform, InPlace.run_answer, InPlace.run_updateAligned,
      InPlace.run_update hr.1 hr.2, Nat.dvd_iff_mod_eq_zero, Memory.atomicUpdateAligned]
    split
    · rfl
    · cases m.atomicUpdate a size fun old ↦ (f old, ()) <;> rfl

/-- The addresses of the whole pages that a request to change a range of pages is about: the first
one and how many there are. -/
def range? : Request → Option (Address × Nat)
  | map start length _ _ => some (start, roundUpToPage length)
  | unmap start length => some (start, roundUpToPage length)
  | discard start length => some (start, roundUpToPage length)
  | protect start length _ => some (start, roundUpToPage length)
  | _ => none

end Request

namespace Memory

theorem settle_map_eq_ok_iff {ε : Type} {m after : Memory} {x : Except ε Memory} :
    m.settle (x.map ((), ·)) = (.ok (), after) ↔ x = .ok after := by
  rw [settle_eq_ok_iff]
  cases x with
  | error e => simp [Except.map]
  | ok after' => simp [Except.map]

/-- Memory before and after a change of the pages of a range: the range begins at a page boundary
and ends below 2^64, entries outside of it are those that they were, and so are all frames that had
been given out. -/
structure AltersOnly (start : Address) (length : Nat) (m after : Memory) : Prop where
  aligned : start.isPageAligned = true
  stop_lt : start.toNat + length < addressLimit
  window : after.space.window = m.space.window
  outside (number : Nat) :
    ¬(start.toNat ≤ number * pageSize ∧ number * pageSize < start.toNat + length) →
      after.space.pages[number]? = m.space.pages[number]?
  frames (id : FrameId) : id < m.frames.next → after.frames.frame id = m.frames.frame id

/-- A change of the pages of a range that is accepted. -/
theorem altersOnly_of_range {m after : Memory} {start : Address} {length : Nat} {r : PageRange}
    (hrange : PageRange.of? start length = .ok r) (hwindow : after.space.window = m.space.window)
    (hpages : ∀ number, ¬r.contains number = true →
      after.space.pages[number]? = m.space.pages[number]?)
    (hframes : ∀ id < m.frames.next, after.frames.frame id = m.frames.frame id) :
    m.AltersOnly start (roundUpToPage length) after := by
  obtain ⟨hstart, -, hend, hr⟩ := PageRange.of?_eq_ok hrange
  refine ⟨?_, hend, hwindow, fun number hout ↦ hpages number fun hin ↦ hout ?_, hframes⟩
  · rw [Address.isPageAligned, Address.pageOffset, hstart, Nat.mul_mod_left]
    rfl
  · rw [PageRange.contains_iff] at hin
    have hstop : start.toNat + roundUpToPage length = (r.first + r.count) * pageSize := by
      rw [Nat.add_mul, ← hstart, hr, roundUpToPage_eq]
    rw [hstop, hstart]
    exact ⟨Nat.mul_le_mul_right _ hin.1, Nat.mul_lt_mul_of_pos_right hin.2 (by decide)⟩

/-- Entering pages changes no frame that had been given out. -/
theorem frame_of_prepareFrames {m : Memory} (hm : m.WellFormed) {frames : FrameStore}
    {start : Address} {count : Nat} {b : Backing} {first : FrameId}
    (h : prepareFrames m.frames start count b = .ok (first, frames)) (id : FrameId)
    (hid : id < m.frames.next) : frames.frame id = m.frames.frame id := by
  by_cases hprivate : b.isPrivate = true
  · obtain ⟨-, -, hframe⟩ := prepareFrames_of_isPrivate hprivate h hm.fresh
    rw [hframe, if_neg (by lia)]
  · cases b with
    | anonymous => exact absurd rfl hprivate
    | file name data offset => exact absurd rfl hprivate
    | shared run =>
      obtain ⟨-, -, rfl⟩ := prepareFrames_shared h
      rfl

variable {m after : Memory} {start : Address} {length : Nat}

theorem altersOnly_map (hm : m.WellFormed) {p : Permissions} {b : Backing} {region : Region}
    (h : m.map start length p b = .ok (region, after)) :
    m.AltersOnly start (roundUpToPage length) after := by
  obtain ⟨r, hrange, -, hinsert⟩ := map_eq_ok h
  obtain ⟨first, hprepare, -, hwindow, hpages⟩ := insertPages_eq_ok hinsert
  exact altersOnly_of_range hrange hwindow (fun number hout ↦ by rw [hpages, if_neg hout])
    (frame_of_prepareFrames hm hprepare)

theorem altersOnly_removePages {r : PageRange} (hrange : PageRange.of? start length = .ok r) :
    m.AltersOnly start (roundUpToPage length) { m with space := m.space.removePages r } :=
  altersOnly_of_range hrange rfl
    (fun number hout ↦ by rw [AddressSpace.getElem?_removePages, if_neg hout]) fun _ _ ↦ rfl

theorem altersOnly_setPermissions {r : PageRange} (p : Permissions)
    (hrange : PageRange.of? start length = .ok r) :
    m.AltersOnly start (roundUpToPage length) { m with space := m.space.setPermissions r p } :=
  altersOnly_of_range hrange rfl
    (fun number hout ↦ by simp [AddressSpace.getElem?_setPermissions, hout]) fun _ _ ↦ rfl

end Memory

namespace Request

/-- A request to change a range of pages that is carried out changes that range alone. -/
theorem altersOnly_carryOut {runs : List SharedFrames} {r : Request} {m after : Memory}
    {answer : Answer} {start : Address} {length : Nat} (hm : m.WellFormed)
    (h : Ends (r.carryOut runs) m answer after) (hrange : r.range? = some (start, length)) :
    m.AltersOnly start length after := by
  cases r with
  | map start length p source =>
    cases hrange
    simp only [carryOut] at h
    cases hb : source.backing? runs with
    | none =>
      rw [hb] at h
      exact absurd h (not_ends_throw _)
    | some b =>
      rw [hb] at h
      obtain ⟨region, -, hends⟩ := InPlace.ends_answer_iff.mp h
      rw [Ends, InPlace.run_map, Memory.settle_eq_ok_iff] at hends
      exact Memory.altersOnly_map hm hends
  | mapAnywhere length p source => cases hrange
  | unmap start length =>
    cases hrange
    obtain ⟨_, -, hends⟩ := InPlace.ends_answer_iff.mp h
    rw [Ends, InPlace.run_unmap, Memory.settle_map_eq_ok_iff] at hends
    obtain ⟨r, hrange, rfl⟩ := Memory.unmap_eq_ok hends
    exact Memory.altersOnly_removePages hrange
  | discard start length =>
    cases hrange
    obtain ⟨count, -, hends⟩ := InPlace.ends_answer_iff.mp h
    rw [Ends, InPlace.run_discardPages, Memory.settle_eq_ok_iff] at hends
    obtain ⟨r, hrange, rfl⟩ := Memory.discard_eq_ok hends
    exact Memory.altersOnly_removePages hrange
  | protect start length p =>
    cases hrange
    obtain ⟨_, -, hends⟩ := InPlace.ends_answer_iff.mp h
    rw [Ends, InPlace.run_protect, Memory.settle_map_eq_ok_iff] at hends
    obtain ⟨r, hrange, rfl⟩ := Memory.protect_eq_ok hends
    exact Memory.altersOnly_setPermissions p hrange
  | write a bytes => cases hrange
  | poke a bytes => cases hrange
  | writeNat a count value => cases hrange
  | update a size alignment f => cases hrange

end Request

namespace World

/-- After every history of a machine, the mapped pages of an address space begin at multiples of
4096 of at most 2^64 - 8192. So the sums do not wrap that lead from the page of a mapped address, as
in a fetch or an update of two pages, or from the mapped pages in some range, as in a search for a
gap, to the page that follows; nor do those by which the regions are put together and a range is
walked along. Requests are carried out in place, with the answers and the effects that histories are
made of. Every one that is refused leaves page table and frames as they were; and one to map, to
unmap, to discard or to protect a range that is carried out leaves all pages outside the rounded
range alone, and all frames. -/
theorem pages_in_bounds (windows : Nat → MapWindow) (history : List Action) (k : Nat) :
    let w := (start windows).after history
    let m := w.memory k
    (∀ base p, (base, p) ∈ m.space.entries →
      base.toNat % 4096 = 0 ∧ base.toNat ≤ 2 ^ 64 - 8192 ∧ m.page? base = some p) ∧
    (∀ a p, m.page? a = some p → (a.pageFloor, p) ∈ m.space.entries ∧
      a.pageFloor.toNat + pageSize < addressLimit) ∧
    (∀ low high base, base ∈ m.space.bases low high → base.toNat + pageSize < addressLimit) ∧
    m.space.extents? ≠ none ∧
    (∀ access enforce start length, m.walkRange access enforce start length ≠ none) ∧
    ∀ r : Request,
      (r.Fits → r.perform w.runs m =
        (((r.carryOut w.runs).run.run m).1.toOption.getD .refused,
          ((r.carryOut w.runs).run.run m).2)) ∧
      (∀ refusal after, (r.carryOut w.runs).run.run m = (.error refusal, after) → after = m) ∧
      ∀ answer after start length, (r.carryOut w.runs).run.run m = (.ok answer, after) →
        r.range? = some (start, length) → m.AltersOnly start length after := by
  intro w m
  have hm : m.WellFormed := (wellFormed_after windows history).memory k
  refine ⟨fun base p ↦ hm.of_mem_entries, fun a p hpage ↦
    ⟨Memory.mem_entries_of_page? hpage, hm.add_pageSize_lt hpage⟩, fun low high base hbase ↦ ?_, ?_,
    fun access enforce start length ↦ ?_, fun r ↦ ⟨r.perform_eq w.runs m,
      fun refusal after ↦ r.guarded_carryOut w.runs m refusal after,
      fun answer after start length hends hrange ↦ Request.altersOnly_carryOut hm hends hrange⟩⟩
  · obtain ⟨p, hentry⟩ := AddressSpace.mem_bases hbase
    have hbound := (hm.of_mem_entries hentry).2.1
    simp only [pageSize, addressLimit]
    omega
  · rw [AddressSpace.extents?_eq hm.page_lt]
    exact Option.some_ne_none _
  · rw [Memory.walkRange_eq]
    exact Option.some_ne_none _

end World

end LongMode
