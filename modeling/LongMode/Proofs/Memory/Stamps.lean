import LongMode.Memory.CodeStamp
import LongMode.Proofs.Memory.Cells
import LongMode.Proofs.Memory.World

/-!
Stamps of code. `Memory.code?` is the byte at an address as far as it can be executed; a fetch
returns consecutive such bytes (`fetch_eq_ok`), and a stamp names the frames they are in with their
versions.

Frames only evolve, so a frame that has the version it had has the contents it had. If the stamp of
a range, taken later through any address space, is the one that an earlier fetch returned, then the
range holds the fetched bytes and can be executed (`codeStamp_sound`). A stamp names two frames, so
this is said of ranges that touch no more than two pages. Of a longer range it does not hold
(`not_codeStamp_sound_of_three_pages`).
-/

set_option autoImplicit false
set_option relaxedAutoImplicit false

namespace LongMode.Memory

/-- The byte at an address, taken for a number, if it can be executed. -/
def code? (m : Memory) (n : Nat) : Option UInt8 :=
  match m.space.pages[n / pageSize]? with
  | some p =>
    if p.permissions.execute then some ((m.frames.frame p.frame).get (n % pageSize)) else none
  | none => none

/-! ### Pages of code -/

theorem executablePage_eq_ok {m : Memory} {number : Nat} {culprit : Address} {p : Page} :
    m.executablePage number culprit = .ok p ↔
      m.space.pages[number]? = some p ∧ p.permissions.execute = true := by
  rw [executablePage]
  cases hpage : m.space.pages[number]? with
  | none => simp
  | some q =>
    by_cases hexecute : q.permissions.execute = true
    · simp only [hexecute, if_true, Except.ok.injEq, Option.some.injEq]
      constructor
      · intro h
        exact ⟨h, h ▸ hexecute⟩
      · exact And.left
    · simp only [hexecute, Option.some.injEq]
      rw [if_neg Bool.false_ne_true]
      constructor
      · intro h
        cases h
      · rintro ⟨h, hp⟩
        rw [← h] at hp
        exact absurd hp hexecute

/-- The byte at an offset of an executable page. -/
theorem code?_of_page {m : Memory} {number offset : Nat} {p : Page}
    (hpage : m.space.pages[number]? = some p) (hexecute : p.permissions.execute = true)
    (hoffset : offset < pageSize) :
    m.code? (number * pageSize + offset) = some ((m.frames.frame p.frame).get offset) := by
  have hdiv : (number * pageSize + offset) / pageSize = number := by
    simp only [pageSize] at *
    omega
  have hmod : (number * pageSize + offset) % pageSize = offset := by
    simp only [pageSize] at *
    omega
  rw [code?, hdiv, hmod, hpage]
  simp only [hexecute, if_true]

theorem getElem?_slice (f : Frame) (offset count : Nat) {i : Nat} (h : i < count) :
    (f.slice offset count)[i]? = some (f.get (offset + i)) := by
  simp [Frame.slice, h]

/-! ### Fetching -/

/-- What a fetch returns: the bytes of the first page and, if the window reaches the next page and
that is executable, bytes of it. -/
theorem fetch_eq_ok {m : Memory} {a : Address} {window : Nat} {bytes : List UInt8} {s : CodeStamp}
    (h : m.fetch a window = .ok (bytes, s)) :
    ∃ p, m.space.pages[a.page]? = some p ∧ p.permissions.execute = true ∧
      s.first = m.stampOf p.frame ∧
      ((bytes = (m.frames.frame p.frame).slice a.pageOffset (min (pageSize - a.pageOffset) window) ∧
          s.second = none) ∨
        ∃ q, m.space.pages[a.page + 1]? = some q ∧ q.permissions.execute = true ∧
          s.second = some (m.stampOf q.frame) ∧ pageSize - a.pageOffset < window ∧
          bytes = (m.frames.frame p.frame).slice a.pageOffset (pageSize - a.pageOffset) ++
            (m.frames.frame q.frame).slice 0 (window - (pageSize - a.pageOffset))) := by
  rw [fetch] at h
  cases hfirst : m.executablePage a.page a with
  | error fault => simp [hfirst, bind, Except.bind] at h
  | ok p =>
    obtain ⟨hpage, hexecute⟩ := executablePage_eq_ok.mp hfirst
    refine ⟨p, hpage, hexecute, ?_⟩
    simp only [hfirst, bind, Except.bind] at h
    by_cases hfits : min (pageSize - a.pageOffset) window = window
    · rw [if_pos hfits, Except.ok.injEq, Prod.mk.injEq] at h
      obtain ⟨rfl, rfl⟩ := h
      exact ⟨rfl, .inl ⟨rfl, rfl⟩⟩
    · rw [if_neg hfits] at h
      have hlt : pageSize - a.pageOffset < window := by omega
      cases hsecond : m.executablePage (a.page + 1) (.ofPage (a.page + 1)) with
      | error fault =>
        simp only [hsecond, Except.ok.injEq, Prod.mk.injEq] at h
        obtain ⟨rfl, rfl⟩ := h
        exact ⟨rfl, .inl ⟨rfl, rfl⟩⟩
      | ok q =>
        obtain ⟨hnext, hexecute'⟩ := executablePage_eq_ok.mp hsecond
        simp only [hsecond, Except.ok.injEq, Prod.mk.injEq] at h
        obtain ⟨rfl, rfl⟩ := h
        rw [Nat.min_eq_left (Nat.le_of_lt hlt)]
        exact ⟨rfl, .inr ⟨q, hnext, hexecute', rfl, hlt, rfl⟩⟩

theorem toNat_add_eq (a : Address) (i : Nat) :
    a.toNat + i = a.page * pageSize + (a.pageOffset + i) := by
  rw [← Nat.add_assoc, a.page_mul_add_pageOffset]

/-- The fetched bytes, as far as they come from two pages, are those that can be executed. -/
theorem code?_of_fetch {m : Memory} {a : Address} {window : Nat} {bytes : List UInt8}
    {s : CodeStamp} (h : m.fetch a window = .ok (bytes, s)) {i : Nat} (hi : i < bytes.length)
    (htwo : a.pageOffset + i < 2 * pageSize) : m.code? (a.toNat + i) = bytes[i]? := by
  have hoffset := a.pageOffset_lt
  obtain ⟨p, hpage, hexecute, _, hcases⟩ := fetch_eq_ok h
  have hfirst (hin : a.pageOffset + i < pageSize) :
      m.code? (a.toNat + i) = some ((m.frames.frame p.frame).get (a.pageOffset + i)) := by
    rw [toNat_add_eq, code?_of_page hpage hexecute hin]
  rcases hcases with ⟨rfl, _⟩ | ⟨q, hnext, hexecute', _, _, rfl⟩
  · rw [Frame.length_slice] at hi
    rw [hfirst (by omega), getElem?_slice _ _ _ hi]
  · rw [List.getElem?_append, Frame.length_slice]
    by_cases hin : i < pageSize - a.pageOffset
    · rw [if_pos hin, hfirst (by omega), getElem?_slice _ _ _ hin]
    · rw [if_neg hin]
      rw [List.length_append, Frame.length_slice, Frame.length_slice] at hi
      have hrest : a.pageOffset + i = pageSize + (i - (pageSize - a.pageOffset)) := by omega
      rw [toNat_add_eq, hrest, ← Nat.add_assoc, ← Nat.succ_mul,
        code?_of_page hnext hexecute' (by omega), getElem?_slice _ _ _ (by omega), Nat.zero_add]

/-- A fetch gets at least as far as the bytes that can be executed. -/
theorem fetch_of_code? {m : Memory} {a : Address} {n window : Nat} (hpos : 0 < n)
    (hwindow : n ≤ window) (h : ∀ i, i < n → (m.code? (a.toNat + i)).isSome) :
    ∃ bytes s, m.fetch a window = .ok (bytes, s) ∧ n ≤ bytes.length := by
  have hoffset := a.pageOffset_lt
  have hexecutable (number offset : Nat) (hin : offset < pageSize)
      (hcode : (m.code? (number * pageSize + offset)).isSome) (culprit : Address) :
      ∃ p, m.executablePage number culprit = .ok p := by
    have hdiv : (number * pageSize + offset) / pageSize = number := by
      simp only [pageSize] at *
      omega
    rw [code?, hdiv] at hcode
    cases hpage : m.space.pages[number]? with
    | none => simp [hpage] at hcode
    | some p =>
      by_cases hexecute : p.permissions.execute = true
      · exact ⟨p, executablePage_eq_ok.mpr ⟨hpage, hexecute⟩⟩
      · simp [hpage, hexecute] at hcode
  have hzero := h 0 hpos
  rw [toNat_add_eq] at hzero
  obtain ⟨p, hp⟩ := hexecutable a.page (a.pageOffset + 0) (by omega) hzero a
  rw [fetch]
  simp only [hp, bind, Except.bind]
  by_cases hfits : min (pageSize - a.pageOffset) window = window
  · rw [if_pos hfits]
    refine ⟨_, _, rfl, ?_⟩
    rw [Frame.length_slice, hfits]
    exact hwindow
  · rw [if_neg hfits]
    by_cases hcross : n ≤ pageSize - a.pageOffset
    · have hlength : n ≤ min (pageSize - a.pageOffset) window := by omega
      cases m.executablePage (a.page + 1) (.ofPage (a.page + 1)) with
      | error fault =>
        refine ⟨_, _, rfl, ?_⟩
        rw [Frame.length_slice]
        exact hlength
      | ok q =>
        refine ⟨_, _, rfl, ?_⟩
        rw [List.length_append, Frame.length_slice, Frame.length_slice]
        omega
    · have hlast := h (pageSize - a.pageOffset) (by omega)
      have hnext : a.pageOffset + (pageSize - a.pageOffset) = pageSize + 0 := by omega
      rw [toNat_add_eq, hnext, ← Nat.add_assoc, ← Nat.succ_mul] at hlast
      obtain ⟨q, hq⟩ := hexecutable (a.page + 1) 0 (by decide) hlast (.ofPage (a.page + 1))
      rw [hq]
      refine ⟨_, _, rfl, ?_⟩
      rw [List.length_append, Frame.length_slice, Frame.length_slice]
      omega

/-! ### Stamps -/

/-- A range that has a stamp begins in an executable page and, if it reaches the next one, ends in
an executable page; the stamp is that of their frames. -/
theorem codeStamp_eq_ok {m : Memory} {a : Address} {count : Nat} {s : CodeStamp}
    (h : m.codeStamp a count = .ok s) :
    ∃ p, m.space.pages[a.page]? = some p ∧ p.permissions.execute = true ∧
      s.first = m.stampOf p.frame ∧
      (crossesPage a count = true →
        ∃ q, m.space.pages[(a.pageFloor + BitVec.ofNat 64 pageSize).page]? = some q ∧
          q.permissions.execute = true ∧ s.second = some (m.stampOf q.frame)) := by
  rw [codeStamp] at h
  cases hfirst : m.executablePage a.page a with
  | error fault => simp [hfirst, bind, Except.bind] at h
  | ok p =>
    obtain ⟨hpage, hexecute⟩ := executablePage_eq_ok.mp hfirst
    simp only [hfirst, bind, Except.bind] at h
    by_cases hcross : crossesPage a count = true
    · rw [if_pos hcross] at h
      cases hsecond : m.executablePage (a.pageFloor + BitVec.ofNat 64 pageSize).page
          (a.pageFloor + BitVec.ofNat 64 pageSize) with
      | error fault => simp [hsecond] at h
      | ok q =>
        obtain ⟨hnext, hexecute'⟩ := executablePage_eq_ok.mp hsecond
        simp only [hsecond, Except.ok.injEq] at h
        subst h
        exact ⟨p, hpage, hexecute, rfl, fun _ ↦ ⟨q, hnext, hexecute', rfl⟩⟩
    · rw [if_neg hcross, Except.ok.injEq] at h
      subst h
      exact ⟨p, hpage, hexecute, rfl, fun hcross' ↦ absurd hcross' hcross⟩

/-- Equal stamps of a frame at two moments: it is the same frame with the same contents. -/
theorem frame_eq_of_stampOf {m m' : Memory} (h : m.frames.Evolves m'.frames) {id id' : FrameId}
    (hid : id < m.frames.next) (heq : m'.stampOf id' = m.stampOf id) :
    id' = id ∧ m'.frames.frame id = m.frames.frame id := by
  rw [stampOf, stampOf, FrameStamp.mk.injEq] at heq
  obtain ⟨rfl, hversion⟩ := heq
  exact ⟨rfl, h.frame_eq hid hversion⟩

theorem page_next {a : Address} (h : (a.page + 1) * pageSize < addressLimit) :
    (a.pageFloor + BitVec.ofNat 64 pageSize).page = a.page + 1 := by
  rw [Nat.succ_mul, ← a.toNat_pageFloor] at h
  rw [Address.page_add_ofNat _ h, a.toNat_pageFloor, ← Nat.succ_mul]
  exact Nat.mul_div_cancel _ (by decide)

/-- Bytes with the stamp they had when they were fetched are the bytes that were fetched. -/
theorem code?_of_codeStamp {m m' : Memory} (hm : m.WellFormed)
    (hevolves : m.frames.Evolves m'.frames) {a : Address} {window n : Nat} {bytes : List UInt8}
    {s : CodeStamp} (hfetch : m.fetch a window = .ok (bytes, s)) (hlength : n ≤ bytes.length)
    (htwo : a.pageOffset + n ≤ 2 * pageSize) (hstamp : m'.codeStamp a n = .ok (s.restrict a n))
    {i : Nat} (hi : i < n) : m'.code? (a.toNat + i) = bytes[i]? := by
  have hoffset := a.pageOffset_lt
  rw [← code?_of_fetch hfetch (Nat.lt_of_lt_of_le hi hlength) (by omega)]
  obtain ⟨p, hpage, hexecute, hfirst, hcases⟩ := fetch_eq_ok hfetch
  obtain ⟨p', hpage', hexecute', hfirst', hsecond'⟩ := codeStamp_eq_ok hstamp
  by_cases hin : a.pageOffset + i < pageSize
  · have heq : m'.stampOf p'.frame = m.stampOf p.frame := hfirst'.symm.trans hfirst
    obtain ⟨hid, hframe⟩ := frame_eq_of_stampOf hevolves (hm.mapped_lt _ p hpage) heq
    rw [toNat_add_eq, code?_of_page hpage' hexecute' hin, code?_of_page hpage hexecute hin, hid,
      hframe]
  · have hcross : crossesPage a n = true := by
      rw [crossesPage, decide_eq_true_eq]
      omega
    obtain ⟨q', hnext', hexecuteNext', hstamp'⟩ := hsecond' hcross
    simp only [CodeStamp.restrict, hcross, if_true] at hstamp'
    rcases hcases with ⟨_, hnone⟩ | ⟨q, hnext, hexecuteNext, hsecond, _, _⟩
    · rw [hnone] at hstamp'
      exact nomatch hstamp'
    · have hlt := hm.page_lt _ q hnext
      rw [Nat.succ_mul] at hlt
      rw [page_next (by omega)] at hnext'
      rw [hsecond, Option.some.injEq, eq_comm] at hstamp'
      obtain ⟨hid, hframe⟩ := frame_eq_of_stampOf hevolves (hm.mapped_lt _ q hnext) hstamp'
      have hrest : a.pageOffset + i = pageSize + (a.pageOffset + i - pageSize) := by omega
      rw [toNat_add_eq, hrest, ← Nat.add_assoc, ← Nat.succ_mul,
        code?_of_page hnext' hexecuteNext' (by omega),
        code?_of_page hnext hexecuteNext (by omega), hid, hframe]

/-- A range of bytes that can each be executed is not refused for execution. -/
theorem check_of_code? {m : Memory} (hm : m.WellFormed) {a : Address} {n : Nat}
    (h : ∀ i, i < n → (m.code? (a.toNat + i)).isSome) : m.check .execute a n = .ok () := by
  have hpermits (number : Nat) (hlow : a.toNat ≤ number) (hhigh : number < a.toNat + n) :
      (number / pageSize + 1) * pageSize < addressLimit ∧
        m.PagePermits .execute true (number / pageSize) := by
    have hcode := h (number - a.toNat) (by omega)
    rw [Nat.add_sub_cancel' hlow, code?] at hcode
    cases hpage : m.space.pages[number / pageSize]? with
    | none => simp [hpage] at hcode
    | some p =>
      refine ⟨hm.page_lt _ p hpage, p, hpage, fun _ ↦ ?_⟩
      by_cases hexecute : p.permissions.execute = true
      · exact hexecute
      · simp [hpage, hexecute] at hcode
  rw [check_eq_ok]
  by_cases hzero : n = 0
  · exact .inl hzero
  · refine .inr ⟨?_, fun number hlow hhigh ↦ (hpermits number hlow hhigh).2⟩
    have hlast := (hpermits (a.toNat + n - 1) (by omega) (by omega)).1
    simp only [pageSize] at hlast
    omega

/-- A byte that can be executed is the byte at its address. -/
theorem byte_of_code? {m : Memory} {a : Address} {b : UInt8} (h : m.code? a.toNat = some b) :
    m.byte a = b := by
  rw [code?] at h
  have hpage : m.page? a = m.space.pages[a.toNat / pageSize]? := rfl
  rw [byte, hpage, show a.pageOffset = a.toNat % pageSize from rfl]
  cases hentry : m.space.pages[a.toNat / pageSize]? with
  | none => simp [hentry] at h
  | some p =>
    by_cases hexecute : p.permissions.execute = true
    · simpa [hentry, hexecute] using h
    · simp [hentry, hexecute] at h

/-! ### Histories -/

/-- A stamp is sound. If a fetch returned bytes with a stamp, and at a later moment the stamp of the
first `n` of these bytes, taken through any address space, is still the one they had, then they can
be executed at that moment and are the bytes that were fetched. -/
theorem codeStamp_sound (windows : Nat → MapWindow) (history later : List Action) (k k' : Nat)
    (a : Address) (window n : Nat) (bytes : List UInt8) (s : CodeStamp)
    (hfetch : (((World.start windows).after history).memory k).fetch a window = .ok (bytes, s))
    (hlength : n ≤ bytes.length) (htwo : a.pageOffset + n ≤ 2 * pageSize)
    (hstamp : (((World.start windows).after (history ++ later)).memory k').codeStamp a n =
      .ok (s.restrict a n)) :
    (((World.start windows).after (history ++ later)).memory k').check .execute a n = .ok () ∧
      (((World.start windows).after (history ++ later)).memory k').bytes a n = bytes.take n := by
  have hwell := World.wellFormed_after windows history
  have hwell' := World.wellFormed_after windows (history ++ later)
  have hevolves : (((World.start windows).after history).memory k).frames.Evolves
      (((World.start windows).after (history ++ later)).memory k').frames := by
    rw [World.after_append]
    exact World.evolves_after hwell later
  have hcode (i : Nat) (hi : i < n) := code?_of_codeStamp (hwell.memory k) hevolves hfetch hlength
    htwo hstamp hi
  have hsome (i : Nat) (hi : i < n) : ((((World.start windows).after
      (history ++ later)).memory k').code? (a.toNat + i)).isSome := by
    rw [hcode i hi, List.getElem?_eq_getElem (Nat.lt_of_lt_of_le hi hlength)]
    rfl
  have hcheck := check_of_code? (hwell'.memory k') hsome
  refine ⟨hcheck, List.ext_getElem? fun i ↦ ?_⟩
  by_cases hi : i < n
  · have hlt : a.toNat + i < addressLimit := (page?_of_checkRange hcheck hi).1
    have hbyte := hcode i hi
    rw [List.getElem?_eq_getElem (Nat.lt_of_lt_of_le hi hlength),
      ← Address.toNat_add_ofNat a hlt] at hbyte
    rw [getElem?_bytes _ a hi, byte_of_code? hbyte, List.getElem?_take, if_pos hi,
      List.getElem?_eq_getElem (Nat.lt_of_lt_of_le hi hlength)]
  · have hle : n ≤ i := Nat.le_of_not_lt hi
    rw [List.getElem?_eq_none (by rw [length_bytes]; exact hle),
      List.getElem?_eq_none (by rw [List.length_take]; omega)]

/-- Code is stored through one address space in a run that is then mapped in another. -/
def movedCode : List Action × List Action :=
  ([.share 0x1000,
    .request 0 (.map 0x1000 0x1000 .readExecute (.shared 0)),
    .request 0 (.poke 0x1000 [0x90, 0xc3])],
  [.request 0 (.unmap 0x1000 0x1000),
    .request 1 (.map 0x1000 0x1000 .readExecute (.shared 0))])

/-- The stamp of the code holds in the second address space, and so do its bytes. -/
theorem codeStamp_movedCode :
    (((World.start fun _ ↦ {}).after (movedCode.1 ++ movedCode.2)).memory 1).codeStamp 0x1000 2 =
        .ok ⟨⟨1, 1⟩, none⟩ ∧
      (((World.start fun _ ↦ {}).after (movedCode.1 ++ movedCode.2)).memory 1).check .execute
        0x1000 2 = .ok () ∧
      (((World.start fun _ ↦ {}).after (movedCode.1 ++ movedCode.2)).memory 1).bytes 0x1000 2 =
        [0x90, 0xc3] := by
  have hfetch : (((World.start fun _ ↦ {}).after movedCode.1).memory 0).fetch 0x1000 2 =
      .ok ([0x90, 0xc3], ⟨⟨1, 1⟩, none⟩) := by decide +kernel
  have hstamp : (((World.start fun _ ↦ {}).after (movedCode.1 ++ movedCode.2)).memory 1).codeStamp
      0x1000 2 = .ok (CodeStamp.restrict ⟨⟨1, 1⟩, none⟩ 0x1000 2) := by decide +kernel
  exact ⟨hstamp, codeStamp_sound (fun _ ↦ {}) movedCode.1 movedCode.2 0 1 0x1000 2 2 _ _ hfetch
    (by decide) (by decide) hstamp⟩

/-- A range that touches three pages of code: the stamp of all of it names the frames of the first
two, so it is still the one that the fetch returned when a byte has been stored to the third. -/
theorem not_codeStamp_sound_of_three_pages :
    ¬ ∀ (windows : Nat → MapWindow) (history later : List Action) (k k' : Nat) (a : Address)
      (window n : Nat) (bytes : List UInt8) (s : CodeStamp),
      (((World.start windows).after history).memory k).fetch a window = .ok (bytes, s) →
      1 ≤ n → n ≤ bytes.length →
      (((World.start windows).after (history ++ later)).memory k').codeStamp a n =
        .ok (s.restrict a n) →
      (((World.start windows).after (history ++ later)).memory k').check .execute a n = .ok () ∧
        (((World.start windows).after (history ++ later)).memory k').bytes a n = bytes.take n := by
  intro h
  let history : List Action := [.request 0 (.map 0x1000 0x3000 .readExecute .anonymous)]
  let later : List Action := [.request 0 (.poke 0x3000 [1])]
  let m : Memory := ((World.start fun _ ↦ {}).after history).memory 0
  let m' : Memory := ((World.start fun _ ↦ {}).after (history ++ later)).memory 0
  let attributes : PageAttributes := ⟨.readExecute, .anonymous, none⟩
  have hfirst : m.executablePage (Address.page 0x1fff) 0x1fff = .ok ⟨attributes, 1⟩ := by
    decide +kernel
  have hsecond : m.executablePage (Address.page 0x1fff + 1) (.ofPage (Address.page 0x1fff + 1)) =
      .ok ⟨attributes, 2⟩ := by decide +kernel
  have hfetch : m.fetch 0x1fff 0x1002 = .ok ((m.frames.frame 1).slice 0xfff 1 ++
      (m.frames.frame 2).slice 0 0x1001, ⟨m.stampOf 1, some (m.stampOf 2)⟩) := by
    rw [fetch, hfirst]
    simp only [bind, Except.bind, hsecond]
    rfl
  have hlength : 0x1002 ≤ ((m.frames.frame 1).slice 0xfff 1 ++
      (m.frames.frame 2).slice 0 0x1001).length := by
    simp only [List.length_append, Frame.length_slice]
    decide
  have hstamp : m'.codeStamp 0x1fff 0x1002 =
      .ok (CodeStamp.restrict ⟨m.stampOf 1, some (m.stampOf 2)⟩ 0x1fff 0x1002) := by
    decide +kernel
  have hbytes := (h (fun _ ↦ {}) history later 0 0 0x1fff 0x1002 0x1002 _ _ hfetch (by decide)
    hlength hstamp).2
  -- the last byte of the range is the one that was stored
  have hstored : (m'.bytes 0x1fff 0x1002)[0x1001]? = some 1 := by
    rw [getElem?_bytes m' 0x1fff (by decide)]
    decide +kernel
  have hfetched : (((m.frames.frame 1).slice 0xfff 1 ++
      (m.frames.frame 2).slice 0 0x1001).take 0x1002)[0x1001]? = some 0 := by
    rw [List.getElem?_take, if_pos (by decide), List.getElem?_append, Frame.length_slice,
      if_neg (by decide), getElem?_slice _ _ _ (by decide)]
    decide +kernel
  rw [hbytes, hfetched] at hstored
  exact absurd hstored (by decide)

end LongMode.Memory
