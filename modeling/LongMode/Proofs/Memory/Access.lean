import LongMode.Memory.Data

/-!
What it means that an access is not refused. A check of a range visits pages; seen from outside it
asks, for every single address of the range, whether the page of that address permits the access,
and that the range does not wrap (`checkRange_eq_ok`). A range that is not refused has no part that
would be (`check_of_subrange`), which is what lets an instruction check once and then store in many
places.

A check looks at the page table alone, so no store changes its answer (`checkRange_congr`).
-/

set_option autoImplicit false
set_option relaxedAutoImplicit false

namespace LongMode

instance decidableEqExcept {ε α : Type} [DecidableEq ε] [DecidableEq α] :
    DecidableEq (Except ε α)
  | .error e, .error e' => decidable_of_iff (e = e') (by simp)
  | .ok v, .ok v' => decidable_of_iff (v = v') (by simp)
  | .error e, .ok v => .isFalse (by simp)
  | .ok v, .error e => .isFalse (by simp)

/-! ### Addresses in a range -/

theorem roundUpToPage_eq (length : Nat) :
    roundUpToPage length / pageSize * pageSize = roundUpToPage length :=
  Nat.div_mul_cancel (Nat.dvd_mul_left _ _)

namespace Address

theorem toNat_lt (a : Address) : a.toNat < addressLimit :=
  a.isLt

theorem pageOffset_lt (a : Address) : a.pageOffset < pageSize :=
  Nat.mod_lt _ (by decide)

theorem page_mul_add_pageOffset (a : Address) : a.page * pageSize + a.pageOffset = a.toNat :=
  Nat.div_add_mod' _ _

/-- An address further on, as long as the sum does not wrap. -/
theorem toNat_add_ofNat (a : Address) {i : Nat} (h : a.toNat + i < addressLimit) :
    (a + BitVec.ofNat 64 i).toNat = a.toNat + i := by
  rw [BitVec.toNat_add, BitVec.toNat_ofNat, Nat.add_mod_mod]
  exact Nat.mod_eq_of_lt h

theorem page_add_ofNat (a : Address) {i : Nat} (h : a.toNat + i < addressLimit) :
    (a + BitVec.ofNat 64 i).page = (a.toNat + i) / pageSize := by
  rw [page, toNat_add_ofNat a h]

/-- Addresses up to the end of a page are in it. -/
theorem page_add_of_lt (a : Address) {i : Nat} (h : i < pageSize - a.pageOffset) :
    (a + BitVec.ofNat 64 i).page = a.page := by
  have hlimit := a.toNat_lt
  rw [a.page_add_ofNat (by simp only [pageOffset, pageSize, addressLimit] at *; omega)]
  simp only [page, pageOffset, pageSize] at *
  omega

theorem toNat_ofNat {n : Nat} (h : n < addressLimit) : (BitVec.ofNat 64 n).toNat = n :=
  Nat.mod_eq_of_lt h

theorem ofNat_toNat (a : Address) : BitVec.ofNat 64 a.toNat = a := by
  rw [BitVec.ofNat_toNat, BitVec.setWidth_eq]

theorem toNat_ofPage {number : Nat} (h : number * pageSize < addressLimit) :
    (ofPage number).toNat = number * pageSize :=
  toNat_ofNat h

theorem page_ofPage {number : Nat} (h : number * pageSize < addressLimit) :
    (ofPage number).page = number := by
  rw [page, toNat_ofPage h, Nat.mul_div_cancel _ (by decide)]

theorem isPageAligned_ofPage (number : Nat) : (ofPage number).isPageAligned = true := by
  rw [isPageAligned, beq_iff_eq, pageOffset, ofPage, BitVec.toNat_ofNat,
    Nat.mod_mod_of_dvd _ (by decide), Nat.mul_mod_left]

/-- A multiple of the page size is the first address of a page. -/
theorem ofPage_of_toNat {a : Address} {number : Nat} (h : a.toNat = number * pageSize) :
    ofPage number = a := by
  rw [ofPage, ← h, ofNat_toNat]

theorem toNat_pageFloor (a : Address) : a.pageFloor.toNat = a.page * pageSize :=
  toNat_ofPage (Nat.lt_of_le_of_lt (Nat.div_mul_le_self _ _) a.toNat_lt)

theorem page_pageFloor (a : Address) : a.pageFloor.page = a.page := by
  rw [page, toNat_pageFloor, Nat.mul_div_cancel _ (by decide)]

end Address

/-! ### Checks -/

namespace Memory

/-- The page of a number is mapped and, if permissions are enforced, permits an access. -/
def PagePermits (m : Memory) (access : Access) (enforce : Bool) (number : Nat) : Prop :=
  ∃ p : Page, m.space.pages[number]? = some p ∧ (enforce → p.permissions.allows access)

theorem scan_eq_ok (m : Memory) (access : Access) (enforce : Bool) (start : Address)
    (page count : Nat) :
    m.scan access enforce start page count = .ok () ↔
      ∀ number, page ≤ number → number < page + count → m.PagePermits access enforce number := by
  induction count generalizing page with
  | zero =>
    constructor
    · intro _ number hlow hhigh
      omega
    · intro _
      rfl
  | succ count ih =>
    rw [scan]
    cases hpage : m.space.pages[page]? with
    | none =>
      constructor
      · intro h
        cases h
      · intro h
        obtain ⟨p, hp, _⟩ := h page (Nat.le_refl _) (by omega)
        rw [hpage] at hp
        cases hp
    | some p =>
      by_cases hdenied : (enforce && !p.permissions.allows access) = true
      · simp only [hdenied, if_true]
        constructor
        · intro h
          cases h
        · intro h
          obtain ⟨q, hq, hallows⟩ := h page (Nat.le_refl _) (by omega)
          rw [hpage, Option.some.injEq] at hq
          subst hq
          simp only [Bool.and_eq_true, Bool.not_eq_true'] at hdenied
          rw [hallows hdenied.1] at hdenied
          exact Bool.noConfusion hdenied.2
      · simp only [hdenied]
        rw [if_neg Bool.false_ne_true, ih]
        have hpermits : m.PagePermits access enforce page := by
          refine ⟨p, hpage, fun henforce ↦ ?_⟩
          simpa [henforce] using hdenied
        constructor
        · intro h number hlow hhigh
          by_cases hfirst : number = page
          · rw [hfirst]
            exact hpermits
          · exact h number (by omega) (by omega)
        · intro h number hlow hhigh
          exact h number (by omega) (by omega)

/-- A range is not refused if and only if it is empty, or ends below 2^64 and every address in it
lies in a page that permits the access. -/
theorem checkRange_eq_ok (m : Memory) (access : Access) (enforce : Bool) (start : Address)
    (length : Nat) :
    m.checkRange access enforce start length = .ok () ↔
      length = 0 ∨ start.toNat + length ≤ addressLimit ∧
        ∀ n, start.toNat ≤ n → n < start.toNat + length →
          m.PagePermits access enforce (n / pageSize) := by
  rw [checkRange]
  by_cases hzero : length = 0
  · simp [hzero]
  · rw [if_neg hzero]
    by_cases hwrap : addressLimit ≤ start.toNat + (length - 1)
    · simp only [hwrap, if_true]
      constructor
      · intro h
        cases h
      · intro h
        rcases h with h | ⟨h, _⟩
        · exact absurd h hzero
        · omega
    · simp only [hwrap, if_false, scan_eq_ok]
      have hend : start.toNat + length ≤ addressLimit := by omega
      simp only [hzero, false_or, hend, true_and, Address.page]
      have hdiv : start.toNat / pageSize ≤ (start.toNat + (length - 1)) / pageSize :=
        Nat.div_le_div_right (Nat.le_add_right _ _)
      constructor
      · intro h n hlow hhigh
        have h₁ : start.toNat / pageSize ≤ n / pageSize := Nat.div_le_div_right hlow
        have h₂ : n / pageSize ≤ (start.toNat + (length - 1)) / pageSize :=
          Nat.div_le_div_right (by omega)
        exact h (n / pageSize) h₁ (by omega)
      · intro h number hlow hhigh
        -- the first address of the page that is in the range
        have hn := h (max start.toNat (number * pageSize)) (Nat.le_max_left _ _) (by
          have hlast : number * pageSize ≤ start.toNat + (length - 1) :=
            Nat.le_trans (Nat.mul_le_mul_right _ (by omega)) (Nat.div_mul_le_self _ _)
          omega)
        have hpage : max start.toNat (number * pageSize) / pageSize = number := by
          simp only [pageSize] at *
          omega
        rwa [hpage] at hn

theorem check_eq_ok (m : Memory) (access : Access) (start : Address) (length : Nat) :
    m.check access start length = .ok () ↔
      length = 0 ∨ start.toNat + length ≤ addressLimit ∧
        ∀ n, start.toNat ≤ n → n < start.toNat + length →
          m.PagePermits access true (n / pageSize) :=
  m.checkRange_eq_ok access true start length

/-- What is permitted of a range is permitted of its parts. -/
theorem check_of_subrange {m : Memory} {access : Access} {start : Address} {length : Nat}
    (h : m.check access start length = .ok ()) {offset count : Nat}
    (hpart : offset + count ≤ length) :
    m.check access (start + BitVec.ofNat 64 offset) count = .ok () := by
  rw [check_eq_ok] at h ⊢
  by_cases hzero : count = 0
  · exact .inl hzero
  · rcases h with h | ⟨hend, hpermits⟩
    · omega
    · have hstart : (start + BitVec.ofNat 64 offset).toNat = start.toNat + offset :=
        Address.toNat_add_ofNat start (by omega)
      rw [hstart]
      exact .inr ⟨by omega, fun n hlow hhigh ↦ hpermits n (by omega) (by omega)⟩

/-- An address of a range that is not refused lies in a mapped page. -/
theorem page?_of_checkRange {m : Memory} {access : Access} {enforce : Bool} {start : Address}
    {length : Nat} (h : m.checkRange access enforce start length = .ok ()) {i : Nat}
    (hi : i < length) :
    start.toNat + i < addressLimit ∧
      ∃ p, m.page? (start + BitVec.ofNat 64 i) = some p ∧
        (enforce → p.permissions.allows access) := by
  rcases (m.checkRange_eq_ok access enforce start length).mp h with h | ⟨hend, hpermits⟩
  · omega
  · have hlt : start.toNat + i < addressLimit := by omega
    refine ⟨hlt, ?_⟩
    rw [page?, Address.page_add_ofNat start hlt]
    exact hpermits _ (Nat.le_add_right _ _) (by omega)

theorem scan_congr {m m' : Memory} (h : m'.space = m.space) (access : Access) (enforce : Bool)
    (start : Address) (page count : Nat) :
    m'.scan access enforce start page count = m.scan access enforce start page count := by
  induction count generalizing page with
  | zero => rfl
  | succ count ih => rw [scan, scan, h, ih]

/-- A check depends on the page table alone. -/
theorem checkRange_congr {m m' : Memory} (h : m'.space = m.space) (access : Access)
    (enforce : Bool) (start : Address) (length : Nat) :
    m'.checkRange access enforce start length = m.checkRange access enforce start length := by
  simp only [checkRange, scan_congr h]

theorem check_congr {m m' : Memory} (h : m'.space = m.space) (access : Access) (start : Address)
    (length : Nat) : m'.check access start length = m.check access start length :=
  checkRange_congr h access true start length

end Memory

end LongMode
