import LongMode.Proofs.Memory.Chunks
import Mathlib.Data.Nat.Find

/-!
What an access is refused with. `Memory.Blames` says it of the addresses of a range alone: a range
that wraps is blamed as a whole, and otherwise the lowest address that does not permit the access
is blamed, as unmapped if no page holds it and as denied if one does. A check answers with this and
with nothing else (`check_eq_error_iff`), and it is what loads and stores are refused with
(`access_iff_check`).

A check goes from page to page. The page that it stops at is one that the range meets, and the
address that it blames is the first one of the range in that page (`scan_eq_error`). As a walk in
words of 64 bits it comes to the same, and no sum that it forms leaves the range of words
(`walkRange_eq`).
-/

set_option autoImplicit false
set_option relaxedAutoImplicit false

namespace LongMode

namespace Memory

variable {m : Memory} {access : Access} {enforce : Bool} {start : Address} {length : Nat}

/-! ### One page -/

/-- What an access to a page is refused with, if it is, where `culprit` is to be blamed. -/
def refusal? (m : Memory) (access : Access) (enforce : Bool) (number : Nat) (culprit : Address) :
    Option MemoryFault :=
  match m.space.pages[number]? with
  | none => some (.unmapped culprit access)
  | some p =>
    if enforce && !p.permissions.allows access then some (.denied culprit access) else none

theorem refusal?_eq_none_iff {number : Nat} (culprit : Address) :
    m.refusal? access enforce number culprit = none ↔ m.PagePermits access enforce number := by
  rw [refusal?, PagePermits]
  cases m.space.pages[number]? with
  | none => simp
  | some p => cases enforce <;> simp

/-- The address of a range that is blamed for a page: the first one of the page in the range. -/
def culprit (start : Address) (number : Nat) : Address :=
  if number * pageSize ≤ start.toNat then start else .ofPage number

theorem scan_succ (m : Memory) (access : Access) (enforce : Bool) (start : Address)
    (number count : Nat) :
    m.scan access enforce start number (count + 1) =
      match m.refusal? access enforce number (culprit start number) with
      | some fault => .error fault
      | none => m.scan access enforce start (number + 1) count := by
  rw [scan, refusal?]
  cases m.space.pages[number]? with
  | none => rfl
  | some p =>
    simp only [culprit]
    split <;> rfl

/-- Pages are visited up to the first that is refused. -/
theorem scan_eq_error {number bad count : Nat} {fault : MemoryFault}
    (hlow : number ≤ bad) (hhigh : bad < number + count)
    (hbefore : ∀ k, number ≤ k → k < bad → m.PagePermits access enforce k)
    (hbad : m.refusal? access enforce bad (culprit start bad) = some fault) :
    m.scan access enforce start number count = .error fault := by
  induction count generalizing number with
  | zero => omega
  | succ count ih =>
    rw [scan_succ]
    rcases Nat.eq_or_lt_of_le hlow with rfl | hlt
    · rw [hbad]
    · rw [(refusal?_eq_none_iff _).mpr (hbefore number (Nat.le_refl _) hlt)]
      exact ih hlt (by omega) fun k hk ↦ hbefore k (Nat.le_of_succ_le hk)

/-! ### The addresses of a range -/

/-- What a range is refused an access with: all of it if it wraps, and otherwise the lowest of its
addresses that does not permit the access. -/
inductive Blames (m : Memory) (access : Access) (start : Address) (length : Nat) :
    MemoryFault → Prop
  /-- The range does not end below 2^64. -/
  | wraps (hlength : 0 < length) (hend : addressLimit ≤ start.toNat + (length - 1)) :
    m.Blames access start length (.unmapped start access)
  /-- No page holds the address. -/
  | absent (i : Nat) (hi : i < length) (hend : start.toNat + (length - 1) < addressLimit)
    (hbefore : ∀ j < i, m.permits access (start + BitVec.ofNat 64 j) = true)
    (hpage : m.page? (start + BitVec.ofNat 64 i) = none) :
    m.Blames access start length (.unmapped (start + BitVec.ofNat 64 i) access)
  /-- The page that holds the address does not permit the access. -/
  | forbidden (i : Nat) (hi : i < length) (hend : start.toNat + (length - 1) < addressLimit)
    (hbefore : ∀ j < i, m.permits access (start + BitVec.ofNat 64 j) = true) (p : Page)
    (hpage : m.page? (start + BitVec.ofNat 64 i) = some p)
    (hdenied : p.permissions.allows access = false) :
    m.Blames access start length (.denied (start + BitVec.ofNat 64 i) access)

/-- The lowest address that does not permit an access is the first one of its page in the range. -/
theorem culprit_of_first {i : Nat} (hend : start.toNat + i < addressLimit)
    (hbefore : ∀ j < i, m.permits access (start + BitVec.ofNat 64 j) = true)
    (hbad : m.permits access (start + BitVec.ofNat 64 i) ≠ true) :
    culprit start ((start.toNat + i) / pageSize) = start + BitVec.ofNat 64 i := by
  -- an earlier address of the same page would not permit the access either
  have hsame (j : Nat) (hj : j ≤ i)
      (hpage : (start.toNat + j) / pageSize = (start.toNat + i) / pageSize) : j = i := by
    refine (Nat.eq_or_lt_of_le hj).resolve_right fun hlt ↦ hbad ?_
    have hpermits := hbefore j hlt
    rw [permits_eq_true_iff, Address.page_add_ofNat _ (by omega)] at hpermits ⊢
    rwa [hpage] at hpermits
  rw [culprit]
  split
  next hle =>
    have hzero : 0 = i := hsame 0 (Nat.zero_le i) (by simp only [pageSize] at *; omega)
    rw [← hzero]
    exact (BitVec.add_zero start).symm
  next hgt =>
    obtain ⟨j, hj⟩ : ∃ j, start.toNat + j = (start.toNat + i) / pageSize * pageSize :=
      ⟨_, Nat.add_sub_cancel' (Nat.le_of_not_le hgt)⟩
    have hji : j = i := hsame j (by simp only [pageSize] at *; omega) (by
      rw [hj, Nat.mul_div_cancel _ (by decide)])
    subst hji
    rw [← BitVec.toNat_inj, Address.toNat_add_ofNat _ hend, Address.toNat_ofPage (hj ▸ hend)]
    exact hj.symm

/-- A check stops at the page of the lowest address that does not permit the access. -/
theorem check_of_first {i : Nat} {fault : MemoryFault} (hi : i < length)
    (hend : start.toNat + (length - 1) < addressLimit)
    (hbefore : ∀ j < i, m.permits access (start + BitVec.ofNat 64 j) = true)
    (hfault : m.refusal? access true (start + BitVec.ofNat 64 i).page (start + BitVec.ofNat 64 i) =
      some fault) :
    m.check access start length = .error fault := by
  have hbad : m.permits access (start + BitVec.ofNat 64 i) ≠ true := by
    rw [Ne, permits_eq_true_iff, ← refusal?_eq_none_iff (start + BitVec.ofNat 64 i),
      hfault]
    exact Option.some_ne_none fault
  have hlength : length ≠ 0 := by omega
  rw [Address.page_add_ofNat _ (by omega), ← culprit_of_first (by omega) hbefore hbad] at hfault
  rw [check, checkRange, if_neg hlength, if_neg (Nat.not_le_of_lt hend)]
  refine scan_eq_error ?_ ?_ (fun k hlow hhigh ↦ ?_) hfault
  · exact Nat.div_le_div_right (Nat.le_add_right _ _)
  · have hdiv : (start.toNat + i) / pageSize ≤ (start.toNat + (length - 1)) / pageSize :=
      Nat.div_le_div_right (by omega)
    have hfirst : start.page ≤ (start.toNat + i) / pageSize :=
      Nat.div_le_div_right (Nat.le_add_right _ _)
    omega
  · -- the range meets each page below that of the address
    obtain ⟨j, hj⟩ : ∃ j, max start.toNat (k * pageSize) = start.toNat + j :=
      Nat.exists_eq_add_of_le (Nat.le_max_left _ _)
    have hji : j < i ∧ (start.toNat + j) / pageSize = k := by
      simp only [Address.page, pageSize] at *
      omega
    have hpermits := (permits_eq_true_iff access _).mp (hbefore j hji.1)
    rwa [Address.page_add_ofNat _ (by omega), hji.2] at hpermits

/-- What a range is to be blamed for is what a check of it answers. -/
theorem check_of_blames {fault : MemoryFault} (h : m.Blames access start length fault) :
    m.check access start length = .error fault := by
  cases h with
  | wraps hlength hend =>
    rw [check, checkRange, if_neg (Nat.ne_of_gt hlength), if_pos hend]
  | absent i hi hend hbefore hpage =>
    refine check_of_first hi hend hbefore ?_
    rw [page?] at hpage
    rw [refusal?, hpage]
  | forbidden i hi hend hbefore p hpage hdenied =>
    refine check_of_first hi hend hbefore ?_
    rw [page?] at hpage
    rw [refusal?, hpage]
    simp [hdenied]

/-- A range that is refused is to be blamed for something. -/
theorem exists_blames (h : m.check access start length ≠ .ok ()) :
    ∃ fault, m.Blames access start length fault := by
  rw [Ne, check_eq_ok, not_or, not_and] at h
  obtain ⟨hlength, hpermits⟩ := h
  by_cases hend : start.toNat + length ≤ addressLimit
  · have hbad : ∃ i, i < length ∧ m.permits access (start + BitVec.ofNat 64 i) ≠ true := by
      by_contra hnone
      refine hpermits hend fun n hlow hhigh ↦ ?_
      obtain ⟨i, rfl⟩ := Nat.exists_eq_add_of_le hlow
      have hi : i < length := by omega
      rw [← Address.page_add_ofNat start (by omega), ← permits_eq_true_iff]
      exact of_not_not fun hne ↦ hnone ⟨i, hi, hne⟩
    obtain ⟨hi, hne⟩ := Nat.find_spec hbad
    have hbefore (j : Nat) (hj : j < Nat.find hbad) :
        m.permits access (start + BitVec.ofNat 64 j) = true :=
      of_not_not fun hother ↦ Nat.find_min hbad hj ⟨Nat.lt_trans hj hi, hother⟩
    have hlast : start.toNat + (length - 1) < addressLimit := by omega
    cases hpage : m.page? (start + BitVec.ofNat 64 (Nat.find hbad)) with
    | none => exact ⟨_, .absent _ hi hlast hbefore hpage⟩
    | some p =>
      refine ⟨_, .forbidden _ hi hlast hbefore p hpage ?_⟩
      rwa [permits, hpage, Option.any_some, ne_eq, Bool.not_eq_true] at hne
  · exact ⟨_, .wraps (Nat.pos_of_ne_zero hlength) (by omega)⟩

/-- A check answers with what its range is to be blamed for. -/
theorem check_eq_error_iff {fault : MemoryFault} :
    m.check access start length = .error fault ↔ m.Blames access start length fault := by
  refine ⟨fun h ↦ ?_, check_of_blames⟩
  have hrefused : m.check access start length ≠ .ok () := by simp [h]
  obtain ⟨fault', hblames⟩ := exists_blames hrefused
  rw [check_of_blames hblames, Except.error.injEq] at h
  exact h ▸ hblames

/-! ### The walk in words -/

theorem culprit_of_aligned {page : Address} (haligned : page.toNat = page.page * pageSize) :
    culprit start page.page = if page < start then start else page := by
  rw [culprit, ← haligned, Address.ofPage, ← haligned, Address.ofNat_toNat]
  by_cases hlt : page < start
  · rw [if_pos hlt, if_pos (Nat.le_of_lt (BitVec.lt_def.mp hlt))]
  · rw [if_neg hlt]
    split
    next hle =>
      rw [BitVec.lt_def] at hlt
      exact BitVec.eq_of_toNat_eq (by omega)
    next => rfl

/-- One page of a walk. -/
theorem walk_step {last page : Address} (haligned : page.toNat = page.page * pageSize) :
    m.walk access enforce start last page =
      match m.refusal? access enforce page.page (culprit start page.page) with
      | some fault => some (.error fault)
      | none =>
        if page = last.pageFloor then some (.ok ())
        else if page.toNat + pageSize < addressLimit then
          m.walk access enforce start last (page + BitVec.ofNat 64 pageSize)
        else none := by
  rw [walk, refusal?, page?, culprit_of_aligned haligned]
  cases m.space.pages[page.page]? with
  | none => rfl
  | some p =>
    simp only
    split <;> rfl

/-- From a page boundary on a walk visits the pages that a scan visits, up to that of `last`. -/
theorem walk_eq_scan (last page : Address) {count : Nat}
    (haligned : page.toNat = page.page * pageSize) (hlast : last.page = page.page + count) :
    m.walk access enforce start last page =
      some (m.scan access enforce start page.page (count + 1)) := by
  induction count generalizing page with
  | zero =>
    have hfloor : page = last.pageFloor := by
      rw [← BitVec.toNat_inj, Address.toNat_pageFloor, hlast, haligned, Nat.add_zero]
    rw [walk_step haligned, scan_succ]
    split
    · rfl
    · rw [if_pos hfloor]
      rfl
  | succ count ih =>
    have hfloor : page ≠ last.pageFloor := by
      rw [← BitVec.toNat_inj.ne, Address.toNat_pageFloor, hlast, haligned]
      simp only [pageSize]
      omega
    -- the next page is not above that of `last`, which is an address
    have hsum : page.toNat + pageSize < addressLimit := by
      have hlimit := last.toNat_lt
      simp only [Address.page, pageSize] at *
      omega
    have hnext : (page + BitVec.ofNat 64 pageSize).toNat = page.toNat + pageSize :=
      Address.toNat_add_ofNat page hsum
    have hpage : (page + BitVec.ofNat 64 pageSize).page = page.page + 1 := by
      rw [Address.page, hnext, Nat.add_div_right _ (by decide), Address.page]
    have hrest := ih (page + BitVec.ofNat 64 pageSize)
      (by rw [hnext, hpage, haligned, Nat.succ_mul]) (by omega)
    rw [walk_step haligned, scan_succ]
    split
    · rfl
    · rw [if_neg hfloor, if_pos hsum, hrest, hpage]

/-- The walk along a range is its check, and no sum that it forms leaves the range of words. -/
theorem walkRange_eq (m : Memory) (access : Access) (enforce : Bool) (start : Address)
    (length : Nat) :
    m.walkRange access enforce start length = some (m.checkRange access enforce start length) := by
  rw [walkRange, checkRange]
  by_cases hlength : length = 0
  · rw [if_pos hlength, if_pos hlength]
  · rw [if_neg hlength, if_neg hlength]
    by_cases hend : addressLimit ≤ start.toNat + (length - 1)
    · rw [if_pos hend, if_pos hend]
    · have hpage : (start + BitVec.ofNat 64 (length - 1)).page =
          (start.toNat + (length - 1)) / pageSize := start.page_add_ofNat (Nat.lt_of_not_le hend)
      have hle : start.page ≤ (start.toNat + (length - 1)) / pageSize :=
        Nat.div_le_div_right (Nat.le_add_right _ _)
      have hwalk : m.walk access enforce start (start + BitVec.ofNat 64 (length - 1))
          start.pageFloor = some (m.scan access enforce start start.pageFloor.page
            ((start.toNat + (length - 1)) / pageSize - start.page + 1)) := walk_eq_scan _ _
        (by rw [start.toNat_pageFloor, start.page_pageFloor])
        (by rw [hpage, start.page_pageFloor]; omega)
      rw [if_neg hend, if_neg hend, hwalk, start.page_pageFloor]

/-! ### Access by addresses -/

/-- A range is not refused if and only if it ends below 2^64 and each of its addresses permits the
access. -/
theorem check_eq_ok_iff_permits :
    m.check access start length = .ok () ↔
      length = 0 ∨ start.toNat + (length - 1) < addressLimit ∧
        ∀ i < length, m.permits access (start + BitVec.ofNat 64 i) = true := by
  constructor
  · intro h
    refine (Nat.eq_zero_or_pos length).imp_right fun hpos ↦ ⟨?_, permits_of_check h⟩
    exact (page?_of_checkRange h (Nat.sub_one_lt_of_lt hpos)).1
  · intro h
    by_contra hne
    obtain ⟨fault, hblames⟩ := exists_blames hne
    -- whatever the range is blamed for contradicts what its addresses permit
    cases hblames with
    | wraps hlength hend => omega
    | absent i hi _ _ hpage =>
      have hpermits := (h.resolve_left (by omega)).2 i hi
      rw [permits, hpage] at hpermits
      exact absurd hpermits Bool.false_ne_true
    | forbidden i hi _ _ p hpage hdenied =>
      have hpermits := (h.resolve_left (by omega)).2 i hi
      rw [permits, hpage, Option.any_some, hdenied] at hpermits
      exact absurd hpermits Bool.false_ne_true

/-- The walk along a range answers for its addresses: it forms no sum that leaves the range of
words; it refuses nothing if and only if the range is empty, or ends below 2^64 and has only
addresses that permit the access; and it refuses with what `Blames` says. A load and a store, in
place or at once, succeed just where the walk for reading or for writing does, and are refused with
what it answers. -/
theorem access_iff_check (m : Memory) (access : Access) (a : Address) (length : Nat)
    (bytes : List UInt8) :
    m.walkRange access true a length = some (m.check access a length) ∧
      (m.check access a length = .ok () ↔
        length = 0 ∨ a.toNat + (length - 1) ≤ 2 ^ 64 - 1 ∧
          ∀ i < length, m.permits access (a + BitVec.ofNat 64 i) = true) ∧
      (∀ fault, m.check access a length = .error fault ↔ m.Blames access a length fault) ∧
      (InPlace.read a length).run.run m =
        ((m.check .read a length).map fun _ ↦ m.bytes a length, m) ∧
      (InPlace.write a bytes).run.run m =
        m.settle ((m.check .write a bytes.length).map fun _ ↦ ((), m.store a bytes)) ∧
      m.read a length = ((m.check .read a length).map fun _ ↦ m.bytes a length) ∧
      m.write a bytes = (m.check .write a bytes.length).map fun _ ↦ m.store a bytes := by
  have hread : m.read a length = (m.check .read a length).map fun _ ↦ m.bytes a length := by
    rw [read]
    cases m.check .read a length <;> rfl
  have hwrite : m.write a bytes =
      (m.check .write a bytes.length).map fun _ ↦ m.store a bytes := by
    rw [write]
    cases m.check .write a bytes.length <;> rfl
  have hbound : a.toNat + (length - 1) ≤ 2 ^ 64 - 1 ↔ a.toNat + (length - 1) < addressLimit :=
    Nat.lt_succ_iff.symm
  rw [InPlace.run_read, InPlace.run_write, hread, hwrite, hbound]
  refine ⟨walkRange_eq m access true a length, check_eq_ok_iff_permits,
    fun fault ↦ check_eq_error_iff, rfl, ?_, rfl, rfl⟩
  cases m.check .write a bytes.length <;> rfl

end Memory

end LongMode
