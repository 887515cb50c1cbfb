import LongMode.Proofs.Memory.Cells
import LongMode.Proofs.Memory.World

/-!
Memory as a ledger of stores. A `Ledger` knows nothing of frames. It has sheets of 4096 cells: every
page of a private mapping is a sheet of its own, made when the mapping is, and every page of a run
made for sharing is one sheet wherever it is mapped. It keeps the list of all stores to cells, the
latest first, and what a mapping was filled with; the value of a cell is the latest byte stored to
it, or else what the cell was filled with. A store of several bytes is entered byte by byte in
ascending order of addresses, also where two addresses of it are one cell.

`Ledger.Placed` says that a one-to-one placement of sheets in frames carries values over to
contents; stores to placed sheets keep it (`Placed.assign`), and so do new sheets in new frames
(`Placed.extend`).
-/

set_option autoImplicit false
set_option relaxedAutoImplicit false

namespace LongMode

/-- A page's worth of cells. -/
inductive Sheet where
  /-- A page of the private mapping that was made as the `birth`-th. -/
  | own (birth index : Nat)
  /-- A page of the run of frames that was made as the `handle`-th. -/
  | shared (handle index : Nat)
  deriving DecidableEq

/-- Whether other mappings may hold a sheet too. -/
def Sheet.isShared : Sheet → Bool
  | own .. => false
  | shared .. => true

/-- A position in a sheet. -/
abbrev Cell :=
  Sheet × Nat

/-- The sheet of a page of a new mapping. -/
def Source.sheet (birth : Nat) : Source → (index : Nat) → Sheet
  | .shared handle, index => .shared handle index
  | _, index => .own birth index

theorem Source.own_of_sheet_eq {source : Source} {birth i birth' index : Nat}
    (h : source.sheet birth i = .own birth' index) : birth' = birth ∧ index = i := by
  cases source with
  | anonymous =>
    cases h
    exact ⟨rfl, rfl⟩
  | file name data offset =>
    cases h
    exact ⟨rfl, rfl⟩
  | shared handle => exact nomatch h

/-- The byte that a cell of a private mapping begins with. -/
def Source.initial : Source → (position : Nat) → UInt8
  | .file _ data offset, position => data.getD (offset + position) 0
  | _, _ => 0

/-- An account of what happened to memory. -/
structure Ledger where
  /-- What the mappings made so far were filled with, in order. -/
  fills : List Source := []
  /-- The sheets by address space and page number. -/
  table : Nat → Nat → Option Sheet := fun _ _ ↦ none
  /-- The stores of bytes, the latest first. -/
  stores : List (Cell × UInt8) := []

namespace Ledger

/-- The cell that an address of a space resolves to. -/
def cell? (l : Ledger) (k : Nat) (n : Nat) : Option Cell :=
  (l.table k (n / pageSize)).map (·, n % pageSize)

/-- The byte that a cell begins with. -/
def initial (l : Ledger) : Cell → UInt8
  | (.own birth index, offset) =>
    match l.fills[birth]? with
    | some source => source.initial (index * pageSize + offset)
    | none => 0
  | (.shared .., _) => 0

/-- The byte most recently stored to a cell, or the one it began with. -/
def value (l : Ledger) (c : Cell) : UInt8 :=
  ((l.stores.find? fun store ↦ store.1 = c).map Prod.snd).getD (l.initial c)

/-- Enter the bytes of a store, in ascending order of addresses. -/
def store (l : Ledger) (k : Nat) (a : Address) (bytes : List UInt8) : Ledger :=
  { l with stores := (spread (l.cell? k) a.toNat bytes).reverse ++ l.stores }

/-- Whether a page meets `length` bytes from the beginning of page `first` on. -/
def meets (first length number : Nat) : Prop :=
  first * pageSize < (number + 1) * pageSize ∧ number * pageSize < first * pageSize + length

instance (first length number : Nat) : Decidable (meets first length number) :=
  inferInstanceAs (Decidable (_ ∧ _))

/-- The pages of a range are those that meet its bytes. -/
theorem contains_iff_meets (first length number : Nat) :
    (⟨first, roundUpToPage length / pageSize⟩ : PageRange).contains number = true ↔
      meets first length number :=
  PageRange.contains_iff_meets first length number

/-- Enter a mapping of `length` bytes from page `first` on. -/
def enter (l : Ledger) (k first length : Nat) (source : Source) : Ledger :=
  { l with
    fills := l.fills ++ [source]
    table := Function.update l.table k fun number ↦
      if meets first length number then some (source.sheet l.fills.length (number - first))
      else l.table k number }

/-- Enter the removal of `length` bytes from page `first` on. -/
def remove (l : Ledger) (k first length : Nat) : Ledger :=
  { l with
    table := Function.update l.table k fun number ↦
      if meets first length number then none else l.table k number }

/-- The word that the cells of an operand hold. -/
def word (l : Ledger) (k : Nat) (a : Address) (size : Nat) : BitVec (8 * size) :=
  BitVec.ofNat (8 * size) (LittleEndian.toNat ((List.range size).map fun i ↦
    ((l.cell? k (a + BitVec.ofNat 64 i).toNat).map l.value).getD 0))

/-- Enter a request that was carried out. -/
def accepted (l : Ledger) (k first : Nat) : Request → Ledger
  | .map start length _ source => l.enter k start.page length source
  | .mapAnywhere length _ source => l.enter k first length source
  | .unmap start length => l.remove k start.page length
  | .discard start length => l.remove k start.page length
  | .protect .. => l
  | .write a bytes => l.store k a bytes
  | .poke a bytes => l.store k a bytes
  | .writeNat a count value => l.store k a (LittleEndian.ofNat count value)
  | .update a size _ f => l.store k a (LittleEndian.ofNat size (f (l.word k a size)).toNat)

/-- Enter a request that was answered; of a new mapping the answer tells the first page. -/
def request (l : Ledger) (k : Nat) (r : Request) : Answer → Ledger
  | .refused => l
  | .done => l.accepted k 0 r
  | .placed first => l.accepted k first r

/-- Enter an action that was answered. -/
def note (l : Ledger) : Action → Answer → Ledger
  | .share _, _ => l
  | .request k r, answer => l.request k r answer

/-- The ledger of a history that begins with a given world. -/
def after (l : Ledger) (w : World) : List Action → Ledger
  | [] => l
  | action :: history => (l.note action (w.step action).1).after (w.step action).2 history

/-- The ledger of a history that begins with nothing mapped. -/
def ofHistory (windows : Nat → MapWindow) (history : List Action) : Ledger :=
  after {} (World.start windows) history

/-! ### Values -/

theorem value_stores_reverse (l : Ledger) (stores : List (Cell × UInt8)) :
    ({ l with stores := stores.reverse ++ l.stores } : Ledger).value =
      FrameStore.assign l.value stores := by
  induction stores generalizing l with
  | nil => rfl
  | cons store stores ih =>
    have hrest := ih { l with stores := store :: l.stores }
    have hlist : stores.reverse ++ store :: l.stores = (store :: stores).reverse ++ l.stores := by
      simp
    have hfirst : ({ l with stores := store :: l.stores } : Ledger).value =
        Function.update l.value store.1 store.2 := by
      funext c
      simp only [value, initial, List.find?_cons, Function.update_apply, eq_comm (a := c)]
      by_cases h : store.1 = c
      · simp [h]
      · simp [h]
    rw [hlist, hfirst] at hrest
    exact hrest

/-- A store gives the cells of its addresses the bytes, one after the other. -/
theorem value_store (l : Ledger) (k : Nat) (a : Address) (bytes : List UInt8) :
    (l.store k a bytes).value =
      FrameStore.assign l.value (spread (l.cell? k) a.toNat bytes) :=
  l.value_stores_reverse _

theorem value_of_notMem (l : Ledger) {c : Cell} (h : ∀ b, (c, b) ∉ l.stores) :
    l.value c = l.initial c := by
  have hnone : (l.stores.find? fun store ↦ store.1 = c) = none := by
    refine List.find?_eq_none.mpr fun store hstore heq ↦ ?_
    rw [decide_eq_true_eq] at heq
    exact h store.2 (heq ▸ hstore)
  rw [value, hnone]
  rfl

/-! ### Private sheets -/

/-- A private sheet belongs to one page at most, and to a mapping that was made. -/
structure Exclusive (l : Ledger) : Prop where
  own_eq (k n k' n' birth index : Nat) : l.table k n = some (.own birth index) →
    l.table k' n' = some (.own birth index) → k = k' ∧ n = n'
  own_lt (k n birth index : Nat) :
    l.table k n = some (.own birth index) → birth < l.fills.length

theorem Exclusive.remove {l : Ledger} (h : l.Exclusive) (k first length : Nat) :
    (l.remove k first length).Exclusive := by
  have hsub (k' n : Nat) (s : Sheet) (hs : (l.remove k first length).table k' n = some s) :
      l.table k' n = some s := by
    by_cases hk : k' = k
    · subst hk
      simp only [Ledger.remove, Function.update_self] at hs
      by_cases hin : meets first length n
      · rw [if_pos hin] at hs
        exact nomatch hs
      · rwa [if_neg hin] at hs
    · simpa only [Ledger.remove, Function.update_of_ne hk] using hs
  exact ⟨fun k n k' n' birth index hs hs' ↦
    h.own_eq k n k' n' birth index (hsub k n _ hs) (hsub k' n' _ hs'),
    fun k n birth index hs ↦ h.own_lt k n birth index (hsub k n _ hs)⟩

theorem Exclusive.enter {l : Ledger} (h : l.Exclusive) (k first length : Nat) (source : Source) :
    (l.enter k first length source).Exclusive := by
  have hcases (k' n birth index : Nat)
      (hs : (l.enter k first length source).table k' n = some (.own birth index)) :
      l.table k' n = some (.own birth index) ∨
        k' = k ∧ birth = l.fills.length ∧ n = first + index := by
    by_cases hk : k' = k
    · subst hk
      simp only [Ledger.enter, Function.update_self] at hs
      by_cases hin : meets first length n
      · rw [if_pos hin, Option.some.injEq] at hs
        obtain ⟨hbirth, hindex⟩ := Source.own_of_sheet_eq hs
        have hle : first < n + 1 := Nat.lt_of_mul_lt_mul_right hin.1
        exact .inr ⟨rfl, hbirth, by omega⟩
      · rw [if_neg hin] at hs
        exact .inl hs
    · simp only [Ledger.enter, Function.update_of_ne hk] at hs
      exact .inl hs
  constructor
  · intro k' n k'' n' birth index hs hs'
    rcases hcases k' n birth index hs with hold | ⟨hk, hbirth, hn⟩
    · have hlt := h.own_lt k' n birth index hold
      rcases hcases k'' n' birth index hs' with hold' | ⟨_, hbirth', _⟩
      · exact h.own_eq k' n k'' n' birth index hold hold'
      · omega
    · rcases hcases k'' n' birth index hs' with hold' | ⟨hk', _, hn'⟩
      · have hlt := h.own_lt k'' n' birth index hold'
        omega
      · exact ⟨hk.trans hk'.symm, hn.trans hn'.symm⟩
  · intro k' n birth index hs
    have hlength : (l.enter k first length source).fills.length = l.fills.length + 1 := by
      simp [Ledger.enter]
    rw [hlength]
    rcases hcases k' n birth index hs with hold | ⟨_, hbirth, _⟩
    · exact Nat.lt_succ_of_lt (h.own_lt k' n birth index hold)
    · omega

theorem Exclusive.note {l : Ledger} (h : l.Exclusive) (action : Action) (answer : Answer) :
    (l.note action answer).Exclusive := by
  cases action with
  | share length => exact h
  | request k r =>
    have haccepted (first : Nat) : (l.accepted k first r).Exclusive := by
      cases r with
      | map start length p source => exact h.enter k start.page length source
      | mapAnywhere length p source => exact h.enter k first length source
      | unmap start length => exact h.remove k start.page length
      | discard start length => exact h.remove k start.page length
      | protect start length p => exact h
      | write a bytes => exact ⟨h.own_eq, h.own_lt⟩
      | poke a bytes => exact ⟨h.own_eq, h.own_lt⟩
      | writeNat a count value => exact ⟨h.own_eq, h.own_lt⟩
      | update a size alignment f => exact ⟨h.own_eq, h.own_lt⟩
    cases answer with
    | refused => exact h
    | done => exact haccepted 0
    | placed first => exact haccepted first

theorem Exclusive.after {l : Ledger} (h : l.Exclusive) (w : World) (history : List Action) :
    (l.after w history).Exclusive := by
  induction history generalizing l w with
  | nil => exact h
  | cons action history ih => exact ih (h.note action _) _

theorem exclusive_ofHistory (windows : Nat → MapWindow) (history : List Action) :
    (ofHistory windows history).Exclusive := by
  have hempty : ({} : Ledger).Exclusive :=
    ⟨fun _ _ _ _ _ _ h ↦ (nomatch h), fun _ _ _ _ h ↦ (nomatch h)⟩
  exact hempty.after _ history

/-! ### Placing sheets in frames -/

/-- Known sheets are in different frames, which were given out and hold the values of the sheets. -/
structure Placed (known : Sheet → Prop) (place : Sheet → FrameId) (frames : FrameStore)
    (value : Cell → UInt8) : Prop where
  injective (s s' : Sheet) : known s → known s' → place s = place s' → s = s'
  given_out (s : Sheet) : known s → place s < frames.next
  contents_eq (s : Sheet) (offset : Nat) : known s → offset < pageSize →
    frames.contents (place s, offset) = value (s, offset)

/-- The cell of a frame that stands for a cell of a sheet. -/
def placeCell (place : Sheet → FrameId) (c : Cell) : FrameId × Nat :=
  (place c.1, c.2)

theorem spread_map {C D : Type} (resolve : Nat → Option C) (g : C → D) (n : Nat)
    (bytes : List UInt8) :
    spread (fun n ↦ (resolve n).map g) n bytes =
      (spread resolve n bytes).map fun store ↦ (g store.1, store.2) := by
  induction bytes generalizing n with
  | nil => rfl
  | cons b bs ih =>
    rw [spread, spread, ih, List.map_append]
    cases resolve n <;> rfl

/-- Stores carried over to other cells have the same effect where no two cells become one. -/
theorem assign_map {C D : Type} [DecidableEq C] [DecidableEq D] (g : C → D)
    {stores : List (C × UInt8)} {c : C}
    (hinjective : ∀ store ∈ stores, g c = g store.1 → c = store.1)
    {f : D → UInt8} {f' : C → UInt8} (hf : f (g c) = f' c) :
    FrameStore.assign f (stores.map fun store ↦ (g store.1, store.2)) (g c) =
      FrameStore.assign f' stores c := by
  induction stores generalizing f f' with
  | nil => exact hf
  | cons store stores ih =>
    refine ih (fun store' hstore' ↦ hinjective store' (List.mem_cons_of_mem _ hstore')) ?_
    change Function.update f (g store.1) store.2 (g c) = Function.update f' store.1 store.2 c
    rw [Function.update_apply, Function.update_apply, hf]
    by_cases heq : c = store.1
    · rw [if_pos heq, if_pos (congrArg g heq)]
    · have hne : g c ≠ g store.1 := fun hg ↦ heq (hinjective store List.mem_cons_self hg)
      rw [if_neg heq, if_neg hne]

/-- Stores to known cells keep frames and values in agreement. -/
theorem Placed.assign {known : Sheet → Prop} {place : Sheet → FrameId} {frames frames' : FrameStore}
    {value : Cell → UInt8} (h : Placed known place frames value) {stores : List (Cell × UInt8)}
    (hknown : ∀ store ∈ stores, known store.1.1) (hnext : frames'.next = frames.next)
    (hcontents : frames'.contents = FrameStore.assign frames.contents
      (stores.map fun store ↦ (placeCell place store.1, store.2))) :
    Placed known place frames' (FrameStore.assign value stores) := by
  refine ⟨h.injective, fun s hs ↦ hnext ▸ h.given_out s hs, fun s offset hs hoffset ↦ ?_⟩
  rw [hcontents]
  refine assign_map (placeCell place) (c := (s, offset)) (fun store hstore hplace ↦ ?_)
    (h.contents_eq s offset hs hoffset)
  rw [placeCell, placeCell, Prod.mk.injEq] at hplace
  exact Prod.ext (h.injective _ _ hs (hknown store hstore) hplace.1) hplace.2

/-- The sheets known after `count` sheets were added, which `index` numbers. -/
def extendKnown (index : Sheet → Option Nat) (count : Nat) (known : Sheet → Prop) (s : Sheet) :
    Prop :=
  known s ∨ ∃ i, i < count ∧ index s = some i

/-- The places of sheets after sheets were added, which take the frames from `next` on. -/
def extendPlace (index : Sheet → Option Nat) (next : FrameId) (place : Sheet → FrameId)
    (s : Sheet) : FrameId :=
  match index s with
  | some i => next + i
  | none => place s

section Extend

variable {known : Sheet → Prop} {place : Sheet → FrameId} {index : Sheet → Option Nat}
  {next count : Nat}

theorem extendPlace_of_known {s : Sheet} (hs : index s = none) :
    extendPlace index next place s = place s := by
  rw [extendPlace, hs]

theorem extendPlace_of_index {s : Sheet} {i : Nat} (hs : index s = some i) :
    extendPlace index next place s = next + i := by
  rw [extendPlace, hs]

/-- New sheets in new frames keep frames and values in agreement. -/
theorem Placed.extend {frames frames' : FrameStore} {value value' : Cell → UInt8}
    (h : Placed known place frames value)
    (hindex : ∀ s s' i, index s = some i → index s' = some i → s = s')
    (hunknown : ∀ s, known s → index s = none)
    (hnext : frames'.next = frames.next + count)
    (hold : ∀ id, id < frames.next → frames'.frame id = frames.frame id)
    (hvalue : ∀ s offset, known s → value' (s, offset) = value (s, offset))
    (hnew : ∀ s i offset, index s = some i → i < count → offset < pageSize →
      frames'.contents (frames.next + i, offset) = value' (s, offset)) :
    Placed (extendKnown index count known) (extendPlace index frames.next place) frames'
      value' := by
  refine ⟨fun s s' hs hs' heq ↦ ?_, fun s hs ↦ ?_, fun s offset hs hoffset ↦ ?_⟩
  · rcases hs with hs | ⟨i, hi, hs⟩
    · have hlt := h.given_out s hs
      rw [extendPlace_of_known (hunknown s hs)] at heq
      rcases hs' with hs' | ⟨j, hj, hs'⟩
      · rw [extendPlace_of_known (hunknown s' hs')] at heq
        exact h.injective s s' hs hs' heq
      · rw [extendPlace_of_index hs'] at heq
        lia
    · rw [extendPlace_of_index hs] at heq
      rcases hs' with hs' | ⟨j, hj, hs'⟩
      · have hlt := h.given_out s' hs'
        rw [extendPlace_of_known (hunknown s' hs')] at heq
        lia
      · rw [extendPlace_of_index hs'] at heq
        have hij : i = j := Nat.add_left_cancel heq
        exact hindex s s' j (hij ▸ hs) hs'
  · rw [hnext]
    rcases hs with hs | ⟨i, hi, hs⟩
    · rw [extendPlace_of_known (hunknown s hs)]
      exact Nat.lt_of_lt_of_le (h.given_out s hs) (Nat.le_add_right _ _)
    · rw [extendPlace_of_index hs]
      exact Nat.add_lt_add_left hi _
  · rcases hs with hs | ⟨i, hi, hs⟩
    · rw [extendPlace_of_known (hunknown s hs), hvalue s offset hs,
        ← h.contents_eq s offset hs hoffset, FrameStore.contents, FrameStore.contents,
        hold _ (h.given_out s hs)]
    · rw [extendPlace_of_index hs]
      exact hnew s i offset hs hi hoffset

end Extend

end Ledger

end LongMode
