import LongMode.Memory.Space
import LongMode.Proofs.Memory.Access
import LongMode.Proofs.Memory.Evolution
import LongMode.Proofs.Outcomes

/-!
What the operations on the page table do to the entry of every page, and to the frames.

* A new mapping enters the pages of a range and no other (`insertPages_eq_ok`). Private pages get
  frames that were never given out; shared pages get consecutive frames of a run that was.
* Removing or protecting a range changes the entries of its pages and no frame.
* A range of pages is given by a start and a length in bytes; it consists of the pages that meet
  these bytes (`PageRange.contains_iff_meets`).
-/

set_option autoImplicit false
set_option relaxedAutoImplicit false

namespace LongMode

/-! ### Ranges -/

namespace PageRange

@[simp] theorem contains_iff (r : PageRange) (number : Nat) :
    r.contains number = true ↔ r.first ≤ number ∧ number < r.first + r.count := by
  rw [contains, stop, Bool.and_eq_true, decide_eq_true_eq, decide_eq_true_eq]

/-- The range of `length` bytes from a page boundary on is made of the pages that meet them. -/
theorem contains_iff_meets (first length number : Nat) :
    (⟨first, roundUpToPage length / pageSize⟩ : PageRange).contains number = true ↔
      first * pageSize < (number + 1) * pageSize ∧
        number * pageSize < first * pageSize + length := by
  rw [contains_iff]
  simp only [roundUpToPage, pageSize]
  omega

/-- A range that is accepted starts at a page boundary and ends below 2^64. -/
theorem of?_eq_ok {start : Address} {length : Nat} {r : PageRange}
    (h : of? start length = .ok r) :
    start.toNat = r.first * pageSize ∧ 0 < length ∧
      start.toNat + roundUpToPage length < addressLimit ∧
      r = ⟨start.page, roundUpToPage length / pageSize⟩ := by
  rw [of?] at h
  by_cases haligned : start.isPageAligned = true
  · by_cases hlength :
        (decide (length = 0) || decide (addressLimit ≤ length + (pageSize - 1))) = true
    · simp [haligned, hlength] at h
    · by_cases hend : addressLimit ≤ start.toNat + roundUpToPage length
      · simp [haligned, hlength, hend] at h
      · simp only [haligned, hlength, hend, Bool.not_true, Bool.false_eq_true, if_false,
          Except.ok.injEq] at h
        simp only [Bool.or_eq_true, decide_eq_true_eq, not_or] at hlength
        simp only [Address.isPageAligned, Address.pageOffset, beq_iff_eq] at haligned
        subst h
        refine ⟨?_, Nat.pos_of_ne_zero hlength.1, Nat.lt_of_not_le hend, rfl⟩
        simp only [Address.page]
        rw [Nat.div_mul_cancel (Nat.dvd_of_mod_eq_zero haligned)]
  · simp [haligned] at h

/-- A range that is accepted ends below 2^64. -/
theorem stop_lt_of_of? {start : Address} {length : Nat} {r : PageRange}
    (h : of? start length = .ok r) : r.stop * pageSize < addressLimit := by
  obtain ⟨hstart, _, hend, rfl⟩ := of?_eq_ok h
  rw [stop, Nat.add_mul, roundUpToPage_eq, ← hstart]
  exact hend

end PageRange

/-! ### Entries of the page table -/

namespace AddressSpace

theorem getElem?_removePages (s : AddressSpace) (r : PageRange) (number : Nat) :
    (s.removePages r).pages[number]? = if r.contains number then none else s.pages[number]? := by
  rw [removePages, Std.ExtTreeMap.getElem?_filter']
  by_cases h : r.contains number = true
  · cases hpage : s.pages[number]? <;> simp [h]
  · cases hpage : s.pages[number]? <;> simp [h]

theorem getElem?_setPermissions (s : AddressSpace) (r : PageRange) (p : Permissions)
    (number : Nat) :
    (s.setPermissions r p).pages[number]? = s.pages[number]?.map fun page ↦
      if r.contains number then { page with attributes.permissions := p } else page := by
  rw [setPermissions, Std.ExtTreeMap.getElem?_map]

/-- The least mapped page from one on is the first of the mapped pages, in their order, that does
not come before it. -/
theorem getKeyGE?_eq_find? (pages : Std.ExtTreeMap Nat Page) (first : Nat) :
    pages.getKeyGE? first = pages.keys.find? (first ≤ ·) := by
  obtain ⟨inner⟩ := pages
  induction inner using Std.ExtDTreeMap.inductionOn with
  | mk t =>
    change Std.DTreeMap.Internal.Impl.getKeyGE? first t.inner =
      (Std.DTreeMap.Internal.Impl.keys t.inner).find? _
    rw [Std.DTreeMap.Internal.Impl.getKeyGE?_eq_getEntryGE?,
      Std.DTreeMap.Internal.Impl.getEntryGE?_eq_find? t.wf.ordered,
      Std.DTreeMap.Internal.Impl.keys_eq_keys, Std.Internal.List.keys_eq_map, List.find?_map]
    congr 2
    funext e
    rw [Function.comp_apply, Bool.eq_iff_iff, Nat.isGE_compare, decide_eq_true_iff]

theorem getElem?_eq_none_iff (s : AddressSpace) (number : Nat) :
    s.pages[number]? = none ↔ number ∉ s.pages.keys := by
  rw [Std.ExtTreeMap.mem_keys, Std.ExtTreeMap.mem_iff_isSome_getElem?,
    Option.not_isSome_iff_eq_none]

/-- No page of a range is found to be mapped just in case none of them is. -/
theorem firstMapped?_eq_none (s : AddressSpace) (r : PageRange) :
    s.firstMapped? r = none ↔ ∀ number, r.contains number → s.pages[number]? = none := by
  simp only [firstMapped?, getKeyGE?_eq_find?, Option.filter_eq_none_iff, PageRange.contains_iff,
    getElem?_eq_none_iff, decide_eq_true_eq]
  constructor
  · intro h number hnumber hkey
    cases hfind : s.pages.keys.find? (r.first ≤ ·) with
    | none =>
      have hbelow := List.find?_eq_none.mp hfind number hkey
      rw [decide_eq_true_iff] at hbelow
      exact hbelow hnumber.1
    | some found =>
      obtain ⟨_, before, after, hkeys, hbefore⟩ := List.find?_eq_some_iff_append.mp hfind
      have hlate := h found hfind
      have hordered := s.pages.ordered_keys
      rw [hkeys] at hkey hordered
      rcases List.mem_append.mp hkey with hearly | hkey
      · have hbelow := hbefore number hearly
        simp only [Bool.not_eq_true', decide_eq_false_iff_not] at hbelow
        exact hbelow hnumber.1
      · rcases List.mem_cons.mp hkey with rfl | hafter
        · exact hlate hnumber.2
        · have hlt := (List.pairwise_cons.mp (List.pairwise_append.mp hordered).2.1).1 number hafter
          rw [Nat.compare_eq_lt] at hlt
          exact hlate (Nat.lt_trans hlt hnumber.2)
  · intro h found hfind hstop
    have hlow := List.find?_some hfind
    rw [decide_eq_true_iff] at hlow
    exact h found ⟨hlow, hstop⟩ (List.mem_of_find?_eq_some hfind)

/-- Entering consecutive pages changes their entries and no other. -/
theorem getElem?_foldl_insert (pages : Std.ExtTreeMap Nat Page) (first count : Nat)
    (f : Nat → Page) (number : Nat) :
    ((List.range count).foldl (fun pages i ↦ pages.insert (first + i) (f i)) pages)[number]? =
      if first ≤ number ∧ number < first + count then some (f (number - first))
      else pages[number]? := by
  induction count with
  | zero =>
    have hempty : ¬ (first ≤ number ∧ number < first + 0) := by omega
    rw [if_neg hempty]
    rfl
  | succ count ih =>
    rw [List.range_succ, List.foldl_append, List.foldl_cons, List.foldl_nil,
      Std.ExtTreeMap.getElem?_insert, ih]
    by_cases hlast : first + count = number
    · subst hlast
      simp
    · have hiff : (first ≤ number ∧ number < first + (count + 1)) ↔
          (first ≤ number ∧ number < first + count) := by omega
      simp [hlast, hiff]

/-- A place for a mapping lies in the mapping window. -/
theorem stop_le_of_firstFit? {s : AddressSpace} {count first : Nat}
    (h : s.firstFit? count = some first) :
    (⟨first, count⟩ : PageRange).stop * pageSize ≤ s.window.stop.toNat := by
  rw [firstFit?] at h
  cases hbase : s.window.base.pageCeil? with
  | none => simp [hbase] at h
  | some base =>
    simp only [hbase, Option.bind_eq_bind, Option.bind_some] at h
    by_cases hempty : s.window.stop.toNat ≤ base.toNat
    · simp [hempty] at h
    · simp only [hempty, if_false] at h
      split at h
      · rename_i hfit
        rw [Option.some.injEq] at h
        subst h
        exact hfit
      · exact nomatch h

end AddressSpace

/-! ### Frames for new pages -/

namespace FrameStore

theorem frame_foldl_insert (s : FrameStore) (first count : Nat) (f : Nat → Frame) (id : Nat) :
    ((List.range count).foldl (fun s i ↦ s.insert (first + i) (f i)) s).frame id =
      if first ≤ id ∧ id < first + count then f (id - first) else s.frame id := by
  induction count with
  | zero =>
    have hempty : ¬ (first ≤ id ∧ id < first + 0) := fun h ↦ Nat.not_lt_of_le h.1 h.2
    rw [if_neg hempty]
    rfl
  | succ count ih =>
    rw [List.range_succ, List.foldl_append, List.foldl_cons, List.foldl_nil, frame_insert, ih]
    by_cases hlast : id = first + count
    · subst hlast
      simp
    · have hiff : (first ≤ id ∧ id < first + (count + 1)) ↔
          (first ≤ id ∧ id < first + count) := by omega
      simp [hlast, hiff]

theorem next_foldl_insert (s : FrameStore) (first count : Nat) (f : Nat → Frame) :
    ((List.range count).foldl (fun s i ↦ s.insert (first + i) (f i)) s).next = s.next := by
  induction count with
  | zero => rfl
  | succ count ih =>
    rw [List.range_succ, List.foldl_append, List.foldl_cons, List.foldl_nil, next_insert, ih]

end FrameStore

/-- The bytes that a fresh page of a private mapping begins with. -/
def Backing.pageBytes (index : Nat) : Backing → List UInt8
  | .file _ data offset => (data.drop (offset + index * pageSize)).take pageSize
  | _ => []

/-- A backing whose frames no other mapping holds. -/
def Backing.isPrivate : Backing → Bool
  | .shared _ => false
  | _ => true

namespace Memory

/-- Private pages take the next frames, which are filled from the backing; frames given out earlier
stay as they are. -/
theorem prepareFrames_of_isPrivate {frames frames' : FrameStore} {start : Address} {count : Nat}
    {b : Backing} (hprivate : b.isPrivate) {first : FrameId}
    (h : prepareFrames frames start count b = .ok (first, frames'))
    (hfresh : ∀ id, frames.next ≤ id → frames.frame id = .zeroed) :
    first = frames.next ∧ frames'.next = frames.next + count ∧
      ∀ id, frames'.frame id =
        if frames.next ≤ id ∧ id < frames.next + count then
          .ofBytes (b.pageBytes (id - frames.next))
        else frames.frame id := by
  cases b with
  | anonymous =>
    simp only [prepareFrames, FrameStore.allocate, Except.ok.injEq, Prod.mk.injEq] at h
    obtain ⟨rfl, rfl⟩ := h
    refine ⟨rfl, rfl, fun id ↦ ?_⟩
    by_cases hid : frames.next ≤ id ∧ id < frames.next + count
    · rw [if_pos hid]
      exact hfresh id hid.1
    · rw [if_neg hid]
      rfl
  | file name data offset =>
    simp only [prepareFrames, FrameStore.allocate, Except.ok.injEq, Prod.mk.injEq] at h
    obtain ⟨rfl, rfl⟩ := h
    refine ⟨rfl, ?_, fun id ↦ ?_⟩
    · rw [FrameStore.next_foldl_insert _ _ _ fun i ↦
        .ofBytes ((data.drop (offset + i * pageSize)).take pageSize)]
    · rw [FrameStore.frame_foldl_insert _ _ _ fun i ↦
        .ofBytes ((data.drop (offset + i * pageSize)).take pageSize)]
      rfl
  | shared shared => exact nomatch hprivate

/-- Shared pages take the frames of a run that is long enough. -/
theorem prepareFrames_shared {frames frames' : FrameStore} {start : Address} {count : Nat}
    {shared : SharedFrames} {first : FrameId}
    (h : prepareFrames frames start count (.shared shared) = .ok (first, frames')) :
    count ≤ shared.count ∧ first = shared.first ∧ frames' = frames := by
  simp only [prepareFrames] at h
  by_cases hcount : shared.count < count
  · simp [hcount] at h
  · simp only [hcount, if_false, Except.ok.injEq, Prod.mk.injEq] at h
    exact ⟨Nat.le_of_not_lt hcount, h.1.symm, h.2.symm⟩

/-- A new mapping enters every page of its range and leaves the other entries alone. -/
theorem insertPages_eq_ok {m m' : Memory} {r : PageRange} {p : Permissions} {b : Backing}
    {region : Region} (h : m.insertPages r p b = .ok (region, m')) :
    ∃ first, prepareFrames m.frames (.ofPage r.first) r.count b = .ok (first, m'.frames) ∧
      region = ⟨r.first, r.stop, ⟨p, b.kind, b.name⟩⟩ ∧
      m'.space.window = m.space.window ∧
      ∀ number, m'.space.pages[number]? =
        if r.contains number then some ⟨⟨p, b.kind, b.name⟩, first + (number - r.first)⟩
        else m.space.pages[number]? := by
  rw [insertPages] at h
  cases hprepare : prepareFrames m.frames (.ofPage r.first) r.count b with
  | error error => simp [hprepare, bind, Except.bind] at h
  | ok prepared =>
    obtain ⟨first, frames⟩ := prepared
    simp only [hprepare, bind, Except.bind, Except.ok.injEq, Prod.mk.injEq] at h
    obtain ⟨rfl, rfl⟩ := h
    refine ⟨first, rfl, rfl, rfl, fun number ↦ ?_⟩
    simp only [AddressSpace.getElem?_foldl_insert _ _ _ fun i ↦
      (⟨⟨p, b.kind, b.name⟩, first + i⟩ : Page), PageRange.contains_iff]

/-! ### The operations -/

theorem map_eq_ok {m m' : Memory} {start : Address} {length : Nat} {p : Permissions} {b : Backing}
    {region : Region} (h : m.map start length p b = .ok (region, m')) :
    ∃ r, PageRange.of? start length = .ok r ∧ m.space.firstMapped? r = none ∧
      m.insertPages r p b = .ok (region, m') := by
  rw [map] at h
  cases hrange : PageRange.of? start length with
  | error error => simp [hrange, bind, Except.bind] at h
  | ok r =>
    simp only [hrange, bind, Except.bind] at h
    cases hmapped : m.space.firstMapped? r with
    | some existing => simp [hmapped] at h
    | none =>
      simp only [hmapped] at h
      exact ⟨r, rfl, hmapped, h⟩

/-- A mapping that is refused as overlapping is one of a range with a mapped page. -/
theorem firstMapped?_of_overlap {m : Memory} {start : Address} {length : Nat} {p : Permissions}
    {b : Backing} {a stop existing : Address}
    (h : m.map start length p b = .error (.overlap a stop existing)) :
    ∃ r, PageRange.of? start length = .ok r ∧ m.space.firstMapped? r ≠ none := by
  rw [map] at h
  cases hrange : PageRange.of? start length with
  | error error =>
    simp only [hrange, bind, Except.bind, Except.error.injEq] at h
    subst h
    rw [PageRange.of?] at hrange
    split at hrange
    · exact nomatch hrange
    · split at hrange
      · exact nomatch hrange
      · split at hrange
        · exact nomatch hrange
        · exact nomatch hrange
  | ok r =>
    simp only [hrange, bind, Except.bind] at h
    cases hmapped : m.space.firstMapped? r with
    | some existing => exact ⟨r, rfl, by rw [hmapped]; exact Option.some_ne_none _⟩
    | none =>
      simp only [hmapped, insertPages] at h
      cases b with
      | anonymous => exact nomatch h
      | file name data offset => exact nomatch h
      | shared shared =>
        simp only [prepareFrames, bind, Except.bind] at h
        by_cases hcount : shared.count < r.count
        · simp [hcount] at h
        · simp [hcount] at h

theorem mapAnywhere_eq_ok {m m' : Memory} {length : Nat} {p : Permissions} {b : Backing}
    {region : Region} (h : m.mapAnywhere length p b = .ok (region, m')) :
    ∃ first, m.space.firstFit? (roundUpToPage length / pageSize) = some first ∧
      m.insertPages ⟨first, roundUpToPage length / pageSize⟩ p b = .ok (region, m') := by
  rw [mapAnywhere] at h
  by_cases hlength : (decide (length = 0) || decide (addressLimit ≤ length + (pageSize - 1))) = true
  · simp [hlength] at h
  · simp only [hlength] at h
    rw [if_neg Bool.false_ne_true] at h
    cases hfit : m.space.firstFit? (roundUpToPage length / pageSize) with
    | none => simp [hfit] at h
    | some first =>
      simp only [hfit] at h
      exact ⟨first, rfl, h⟩

theorem unmap_eq_ok {m m' : Memory} {start : Address} {length : Nat}
    (h : m.unmap start length = .ok m') :
    ∃ r, PageRange.of? start length = .ok r ∧ m' = { m with space := m.space.removePages r } := by
  rw [unmap] at h
  cases hrange : PageRange.of? start length with
  | error error => simp [hrange, bind, Except.bind] at h
  | ok r =>
    cases hmapped : m.requireMapped start r with
    | error error => simp [hrange, hmapped, bind, Except.bind] at h
    | ok =>
      simp only [hrange, hmapped, bind, Except.bind, Except.ok.injEq] at h
      exact ⟨r, rfl, h.symm⟩

theorem discard_eq_ok {m m' : Memory} {start : Address} {length removed : Nat}
    (h : m.discard start length = .ok (removed, m')) :
    ∃ r, PageRange.of? start length = .ok r ∧ m' = { m with space := m.space.removePages r } := by
  rw [discard] at h
  cases hrange : PageRange.of? start length with
  | error error => simp [hrange, bind, Except.bind] at h
  | ok r =>
    simp only [hrange, bind, Except.bind, Except.ok.injEq, Prod.mk.injEq] at h
    exact ⟨r, rfl, h.2.symm⟩

theorem protect_eq_ok {m m' : Memory} {start : Address} {length : Nat} {p : Permissions}
    (h : m.protect start length p = .ok m') :
    ∃ r, PageRange.of? start length = .ok r ∧
      m' = { m with space := m.space.setPermissions r p } := by
  rw [protect] at h
  cases hrange : PageRange.of? start length with
  | error error => simp [hrange, bind, Except.bind] at h
  | ok r =>
    cases hmapped : m.requireMapped start r with
    | error error => simp [hrange, hmapped, bind, Except.bind] at h
    | ok =>
      simp only [hrange, hmapped, bind, Except.bind, Except.ok.injEq] at h
      exact ⟨r, rfl, h.symm⟩

theorem shareFrames_eq_ok {m m' : Memory} {length : Nat} {shared : SharedFrames}
    (h : m.shareFrames length = .ok (shared, m')) :
    shared = ⟨m.frames.next, roundUpToPage length / pageSize⟩ ∧
      m'.frames = (m.frames.allocate (roundUpToPage length / pageSize)).2 ∧
      m'.space = m.space := by
  rw [shareFrames] at h
  by_cases hlength : (decide (length = 0) || decide (addressLimit ≤ length + (pageSize - 1))) = true
  · simp [hlength] at h
  · simp only [hlength, FrameStore.allocate] at h
    rw [if_neg Bool.false_ne_true, Except.ok.injEq, Prod.mk.injEq] at h
    obtain ⟨rfl, rfl⟩ := h
    exact ⟨rfl, rfl, rfl⟩

end Memory

end LongMode
