import LongMode.Proofs.Memory.Stamps

/-!
What a fetch finds, and how long its stamp is good. `Memory.codeFrame?` is the frame behind an
address with its version, as far as the address can be executed.

* A fetch returns the longest run of bytes that can be executed and that fits in the window
  (`exists_fetch_iff`, `code?_length_of_fetch`).
* The stamp of the first bytes of it is the one that the fetch returned, restricted to them
  (`codeStamp_of_fetch`). A stamp is taken of the frames of the first and of the last byte
  (`codeStamp_eq_ok_iff`), so it is decided in one way whether a range reaches the next page.
* Another memory has the stamp of a range just if every byte of the range has its frame there, with
  its version, and can be executed (`codeStamp_eq_ok_iff_keepsCode`).
-/

set_option autoImplicit false
set_option relaxedAutoImplicit false

namespace LongMode

/-- A range of two pages ends in the page behind the first, where behind the last page of memory is
its first. -/
theorem Address.page_add_of_ge {a : Address} {j : Nat} (hlow : pageSize ≤ a.pageOffset + j)
    (hhigh : a.pageOffset + j < 2 * pageSize) :
    (a + BitVec.ofNat 64 j).page = (a.pageFloor + BitVec.ofNat 64 pageSize).page := by
  have hlt := a.toNat_lt
  have hsum := a.page_mul_add_pageOffset
  simp only [page, BitVec.toNat_add, BitVec.toNat_ofNat, toNat_pageFloor]
  simp only [pageSize, addressLimit, page] at *
  omega

namespace Memory

variable {m m' : Memory} {a b : Address} {n : Nat} {s : CodeStamp}

/-- The frame behind an address, with its version, if the address can be executed. -/
def codeFrame? (m : Memory) (a : Address) : Option FrameStamp :=
  match m.page? a with
  | some p => if p.permissions.execute then some (m.stampOf p.frame) else none
  | none => none

theorem codeFrame?_congr (h : a.page = b.page) : m.codeFrame? a = m.codeFrame? b := by
  rw [codeFrame?, codeFrame?, page?, page?, h]

theorem codeFrame?_eq (m : Memory) (a culprit : Address) : m.codeFrame? a =
    ((m.executablePage a.page culprit).toOption).map fun p ↦ m.stampOf p.frame := by
  rw [codeFrame?, executablePage, page?]
  cases m.space.pages[a.page]? with
  | none => rfl
  | some p =>
    dsimp only
    split
    · rfl
    · rfl

/-- The bytes of a range have the same frames in another memory, with the same versions, and can be
executed there as before. -/
def KeepsCode (m m' : Memory) (a : Address) (n : Nat) : Prop :=
  ∀ j, j < n → m'.codeFrame? (a + BitVec.ofNat 64 j) = m.codeFrame? (a + BitVec.ofNat 64 j)

/-! ### Stamps -/

theorem crossesPage_iff : crossesPage a n = true ↔ pageSize < a.pageOffset + n :=
  decide_eq_true_iff

/-- The stamp of a range is taken of its first byte and, if it reaches the next page, of its last
byte. -/
theorem codeStamp_eq_ok_iff (hpos : 0 < n) (htwo : a.pageOffset + n ≤ 2 * pageSize) :
    m.codeStamp a n = .ok s ↔ m.codeFrame? a = some s.first ∧
      if crossesPage a n then
        s.second.isSome ∧ m.codeFrame? (a + BitVec.ofNat 64 (n - 1)) = s.second
      else s.second = none := by
  obtain ⟨first, second⟩ := s
  rw [codeStamp, m.codeFrame?_eq a a]
  cases m.executablePage a.page a with
  | error fault => simp [bind, Except.bind, Except.toOption]
  | ok p =>
    dsimp only [bind, Except.bind, Except.toOption, Option.map]
    by_cases hcross : crossesPage a n = true
    · have hlast : (a + BitVec.ofNat 64 (n - 1)).page =
          (a.pageFloor + BitVec.ofNat 64 pageSize).page := by
        rw [crossesPage_iff] at hcross
        exact Address.page_add_of_ge (by omega) (by omega)
      rw [if_pos hcross, if_pos hcross, m.codeFrame?_eq _ (a.pageFloor + BitVec.ofNat 64 pageSize),
        hlast]
      cases m.executablePage (a.pageFloor + BitVec.ofNat 64 pageSize).page
          (a.pageFloor + BitVec.ofNat 64 pageSize) with
      | error fault => cases second <;> simp [Except.toOption]
      | ok q => cases second <;> simp [Except.toOption]
    · rw [if_neg hcross, if_neg hcross]
      simp [eq_comm]

/-- Another memory has the stamp of a range just if it keeps the code of the range. -/
theorem codeStamp_eq_ok_iff_keepsCode (hpos : 0 < n) (htwo : a.pageOffset + n ≤ 2 * pageSize)
    (h : m.codeStamp a n = .ok s) : m'.codeStamp a n = .ok s ↔ m.KeepsCode m' a n := by
  have hbase : a + BitVec.ofNat 64 0 = a := BitVec.add_zero a
  obtain ⟨hfirst, hsecond⟩ := (codeStamp_eq_ok_iff hpos htwo).mp h
  rw [codeStamp_eq_ok_iff hpos htwo, ← hfirst]
  constructor
  · rintro ⟨hfirst', hsecond'⟩ j hj
    by_cases hin : a.pageOffset + j < pageSize
    · have hpage := a.page_add_of_lt (show j < pageSize - a.pageOffset by omega)
      rw [codeFrame?_congr hpage, codeFrame?_congr hpage, hfirst']
    · -- the byte is in the second page, as the last byte is
      have hcross : crossesPage a n = true := crossesPage_iff.mpr (by omega)
      have hpage : (a + BitVec.ofNat 64 j).page = (a + BitVec.ofNat 64 (n - 1)).page :=
        (Address.page_add_of_ge (by omega) (by omega)).trans
          (Address.page_add_of_ge (by omega) (by omega)).symm
      rw [if_pos hcross] at hsecond hsecond'
      rw [codeFrame?_congr hpage, codeFrame?_congr hpage, hsecond'.2, hsecond.2]
  · intro hkeeps
    have hfirst' := hkeeps 0 hpos
    rw [hbase] at hfirst'
    refine ⟨hfirst', ?_⟩
    rw [hkeeps (n - 1) (by omega)]
    exact hsecond

/-! ### Fetching -/

/-- A fetch succeeds just if the first byte can be executed. -/
theorem exists_fetch_iff (window : Nat) :
    (∃ bytes s, m.fetch a window = .ok (bytes, s)) ↔ (m.code? a.toNat).isSome := by
  constructor
  · rintro ⟨bytes, s, hfetch⟩
    obtain ⟨p, hpage, hexecute, -⟩ := fetch_eq_ok hfetch
    rw [← a.page_mul_add_pageOffset, code?_of_page hpage hexecute a.pageOffset_lt]
    rfl
  · intro hcode
    obtain ⟨p, hp⟩ : ∃ p, m.executablePage a.page a = .ok p := by
      rw [code?, show a.toNat / pageSize = a.page from rfl] at hcode
      cases hpage : m.space.pages[a.page]? with
      | none => simp [hpage] at hcode
      | some p =>
        by_cases hexecute : p.permissions.execute = true
        · exact ⟨p, executablePage_eq_ok.mpr ⟨hpage, hexecute⟩⟩
        · simp [hpage, hexecute] at hcode
    rw [fetch]
    simp only [hp, bind, Except.bind]
    split
    · exact ⟨_, _, rfl⟩
    split
    · exact ⟨_, _, rfl⟩
    · exact ⟨_, _, rfl⟩

variable {window : Nat} {bytes : List UInt8}

theorem length_le_of_fetch (h : m.fetch a window = .ok (bytes, s)) : bytes.length ≤ window := by
  obtain ⟨p, -, -, -, ⟨rfl, -⟩ | ⟨q, -, -, -, hlt, rfl⟩⟩ := fetch_eq_ok h
  · rw [Frame.length_slice]
    omega
  · rw [List.length_append, Frame.length_slice, Frame.length_slice]
    omega

/-- A fetch stops before the end of the window only where the next byte cannot be executed. -/
theorem code?_length_of_fetch (h : m.fetch a window = .ok (bytes, s)) (hwindow : window ≤ pageSize)
    (hlt : bytes.length < window) : m.code? (a.toNat + bytes.length) = none := by
  have hoffset := a.pageOffset_lt
  by_contra hnext
  -- one more byte could be executed, and a fetch gets as far as that
  have hcode (i : Nat) (hi : i < bytes.length + 1) : (m.code? (a.toNat + i)).isSome := by
    by_cases hin : i < bytes.length
    · rw [code?_of_fetch h hin (by omega), List.getElem?_eq_getElem hin]
      rfl
    · rw [show i = bytes.length by omega]
      exact Option.isSome_iff_ne_none.mpr hnext
  obtain ⟨bytes', s', hfetch, hlonger⟩ := fetch_of_code? (Nat.succ_pos _) hlt hcode
  rw [h, Except.ok.injEq, Prod.mk.injEq] at hfetch
  rw [← hfetch.1] at hlonger
  omega

/-- The stamp of the first fetched bytes is the stamp of the fetch, restricted to them. -/
theorem codeStamp_of_fetch (hm : m.WellFormed) (h : m.fetch a window = .ok (bytes, s))
    (hwindow : window ≤ pageSize) (hpos : 0 < n) (hlength : n ≤ bytes.length) :
    m.codeStamp a n = .ok (s.restrict a n) := by
  have hoffset := a.pageOffset_lt
  have hle := length_le_of_fetch h
  obtain ⟨p, hpage, hexecute, hfirst, hcases⟩ := fetch_eq_ok h
  have hframe {b : Address} {q : Page} (hq : m.space.pages[b.page]? = some q)
      (hexecuteQ : q.permissions.execute = true) : m.codeFrame? b = some (m.stampOf q.frame) := by
    simp only [codeFrame?, page?, hq, hexecuteQ, if_true]
  refine (codeStamp_eq_ok_iff hpos (by omega)).mpr ⟨?_, ?_⟩
  · exact (hframe hpage hexecute).trans (congrArg some hfirst.symm)
  by_cases hcross : crossesPage a n = true
  · rw [if_pos hcross, CodeStamp.restrict, if_pos hcross]
    rw [crossesPage_iff] at hcross
    rcases hcases with ⟨rfl, -⟩ | ⟨q, hnext, hexecuteQ, hsecond, -, -⟩
    · rw [Frame.length_slice] at hlength
      omega
    · have hlt := hm.page_lt _ q hnext
      have hsum := a.page_mul_add_pageOffset
      have hlast : (a + BitVec.ofNat 64 (n - 1)).page = a.page + 1 := by
        simp only [pageSize, addressLimit] at *
        rw [Address.page_add_ofNat a (by simp only [addressLimit]; omega)]
        simp only [pageSize]
        omega
      rw [← hlast] at hnext
      dsimp only
      rw [hsecond, hframe hnext hexecuteQ]
      exact ⟨rfl, rfl⟩
  · rw [if_neg hcross, CodeStamp.restrict, if_neg hcross]

end Memory

end LongMode
