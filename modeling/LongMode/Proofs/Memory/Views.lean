import LongMode.Proofs.Memory.Copies
import Mathlib.Tactic.SplitIfs

/-!
What can be seen of an address space. A `View` has the permissions of every page and the byte at
every address, and nothing of the frames behind them. As long as no frame is behind two pages
(`Memory.Exclusive`), the operations that set memory up are operations on views:

* a private mapping lays its contents over a range of pages that was free (`view_map`);
* mapped pages that are given permissions keep their bytes (`view_setPermissions`);
* bytes poked into memory are the bytes of consecutive addresses (`view_poke`).
-/

set_option autoImplicit false
set_option relaxedAutoImplicit false

namespace LongMode

/-- A range that is accepted, given by its first page and the number of its pages. -/
theorem PageRange.eq_of_of?_ofPage {first count : Nat} {r : PageRange}
    (hfirst : first * pageSize < addressLimit)
    (h : PageRange.of? (.ofPage first) (count * pageSize) = .ok r) : r = ⟨first, count⟩ := by
  obtain ⟨_, _, _, rfl⟩ := of?_eq_ok h
  rw [Address.page, Address.toNat_ofPage hfirst]
  simp only [roundUpToPage, pageSize, mk.injEq]
  omega

/-- A range of whole pages that ends below 2^64 is accepted. -/
theorem PageRange.of?_ofPage {first count : Nat} (hcount : 0 < count)
    (hstop : (first + count) * pageSize < addressLimit) :
    PageRange.of? (.ofPage first) (count * pageSize) = .ok ⟨first, count⟩ := by
  have hfirst : first * pageSize < addressLimit :=
    Nat.lt_of_le_of_lt (Nat.mul_le_mul_right _ (Nat.le_add_right _ _)) hstop
  have haligned : (Address.ofPage first).isPageAligned = true := by
    rw [Address.isPageAligned, Address.pageOffset, Address.toNat_ofPage hfirst, beq_iff_eq,
      Nat.mul_mod_left]
  have hround : roundUpToPage (count * pageSize) = count * pageSize := by
    simp only [roundUpToPage, pageSize]
    omega
  have hpositive : 0 < pageSize := by decide
  have hlength : ¬ (decide (count * pageSize = 0) ||
      decide (addressLimit ≤ count * pageSize + (pageSize - 1))) = true := by
    rw [Bool.or_eq_true, decide_eq_true_eq, decide_eq_true_eq]
    simp only [pageSize, addressLimit] at *
    omega
  rw [of?, haligned, Address.page, Address.toNat_ofPage hfirst, hround, if_neg (by decide),
    if_neg hlength, if_neg (by rw [← Nat.add_mul]; exact Nat.not_le_of_lt hstop),
    Nat.mul_div_cancel _ hpositive, Nat.mul_div_cancel _ hpositive]

/-- The permissions of the mapped pages by number, and the bytes by address. -/
@[ext]
structure View where
  /-- The permissions of a page, if it is mapped. -/
  permissions : Nat → Option Permissions
  /-- The byte at an address; zero where nothing is mapped. -/
  byte : Nat → UInt8

namespace View

/-- A range of pages is given permissions; pages that were not mapped appear with their bytes. -/
def permit (v : View) (r : PageRange) (p : Permissions) : View :=
  { v with permissions := fun number ↦
      if r.contains number then some p else v.permissions number }

/-- A range of pages gets bytes of its own, counted from the start of the range. -/
def fill (v : View) (r : PageRange) (contents : Nat → UInt8) : View :=
  { v with byte := fun n ↦
      if r.contains (n / pageSize) then contents (n - r.first * pageSize) else v.byte n }

/-- A byte string is put at an address. -/
def put (v : View) (a : Nat) (bytes : List UInt8) : View :=
  { v with byte := fun n ↦
      if a ≤ n ∧ n < a + bytes.length then bytes.getD (n - a) 0 else v.byte n }

/-- No page of a range is mapped. -/
def IsFree (v : View) (r : PageRange) : Prop :=
  ∀ number, r.contains number → v.permissions number = none

variable (v : View) (r : PageRange)

@[simp] theorem permissions_permit (p : Permissions) (number : Nat) :
    (v.permit r p).permissions number =
      if r.contains number then some p else v.permissions number := rfl

@[simp] theorem byte_permit (p : Permissions) (n : Nat) : (v.permit r p).byte n = v.byte n := rfl

@[simp] theorem permissions_fill (contents : Nat → UInt8) (number : Nat) :
    (v.fill r contents).permissions number = v.permissions number := rfl

@[simp] theorem byte_fill (contents : Nat → UInt8) (n : Nat) :
    (v.fill r contents).byte n =
      if r.contains (n / pageSize) then contents (n - r.first * pageSize) else v.byte n := rfl

@[simp] theorem permissions_put (a : Nat) (bytes : List UInt8) (number : Nat) :
    (v.put a bytes).permissions number = v.permissions number := rfl

@[simp] theorem byte_put (a : Nat) (bytes : List UInt8) (n : Nat) :
    (v.put a bytes).byte n =
      if a ≤ n ∧ n < a + bytes.length then bytes.getD (n - a) 0 else v.byte n := rfl

/-- Ranges that touch can be given permissions one after the other. -/
theorem permit_permit (first count count' : Nat) (p : Permissions) :
    (v.permit ⟨first, count⟩ p).permit ⟨first + count, count'⟩ p =
      v.permit ⟨first, count + count'⟩ p := by
  ext1
  · funext number
    simp only [permissions_permit, PageRange.contains_iff]
    split_ifs <;> first | rfl | omega
  · rfl

theorem permit_empty (first : Nat) (p : Permissions) : v.permit ⟨first, 0⟩ p = v := by
  ext1
  · funext number
    rw [permissions_permit, if_neg]
    rw [PageRange.contains_iff]
    simp only
    omega
  · rfl

end View

/-- The byte at a place of a backing: zero past its data, and everywhere if it has none. -/
def Backing.byte (i : Nat) : Backing → UInt8
  | .file _ data offset => data.getD (offset + i) 0
  | _ => 0

/-- The pages of a private mapping, put together, are its backing. -/
theorem Backing.getD_pageBytes (b : Backing) (index : Nat) {k : Nat} (hk : k < pageSize) :
    (b.pageBytes index).getD k 0 = b.byte (index * pageSize + k) := by
  cases b with
  | anonymous => rfl
  | file name data offset =>
    simp only [pageBytes, byte, List.getD_eq_getElem?_getD]
    rw [List.getElem?_take_of_lt hk, List.getElem?_drop, Nat.add_assoc]
  | shared frames => rfl

namespace Memory

/-- What can be seen of memory. -/
def view (m : Memory) : View where
  permissions number := m.space.pages[number]?.map Page.permissions
  byte n := ((m.space.cell? n).map m.frames.contents).getD 0

theorem permissions_view (m : Memory) (number : Nat) :
    m.view.permissions number = m.space.pages[number]?.map Page.permissions := rfl

/-- Permissions are a matter of the page table alone. -/
theorem permissions_view_congr {m m' : Memory} (h : m'.space = m.space) :
    m'.view.permissions = m.view.permissions := by
  funext number
  rw [permissions_view, permissions_view, h]

theorem byte_view (m : Memory) (n : Nat) :
    m.view.byte n = ((m.space.cell? n).map m.frames.contents).getD 0 := rfl

theorem byte_eq_view (m : Memory) (a : Address) : m.byte a = m.view.byte a.toNat :=
  m.byte_eq_getD a

theorem byte_ofNat_eq_view (m : Memory) {n : Nat} (hn : n < addressLimit) :
    m.byte (BitVec.ofNat 64 n) = m.view.byte n := by
  rw [byte_eq_view, Address.toNat_ofNat hn]

theorem byte_view_of_unmapped {m : Memory} {n : Nat}
    (h : m.view.permissions (n / pageSize) = none) : m.view.byte n = 0 := by
  have hpage : m.space.pages[n / pageSize]? = none := Option.map_eq_none_iff.mp h
  simp [byte_view, AddressSpace.cell?, hpage]

/-- Filling free pages with zeros does not show. -/
theorem fill_zero_view {m : Memory} {r : PageRange} (hfree : m.view.IsFree r) (p : Permissions) :
    (m.view.permit r p).fill r (fun _ ↦ 0) = m.view.permit r p := by
  ext1
  · rfl
  · funext n
    rw [View.byte_fill, View.byte_permit]
    split
    · rename_i hin
      exact (byte_view_of_unmapped (hfree _ hin)).symm
    · rfl

/-- Memory none of whose frames is behind two pages. -/
structure Exclusive (m : Memory) : Prop extends m.WellFormed where
  frame_inj (number number' : Nat) (p p' : Page) : m.space.pages[number]? = some p →
    m.space.pages[number']? = some p' → p.frame = p'.frame → number = number'

/-- Well-formed memory in which nothing is mapped. -/
theorem WellFormed.exclusive {m : Memory} (h : m.WellFormed)
    (hempty : ∀ number : Nat, m.space.pages[number]? = none) : m.Exclusive := by
  refine ⟨h, fun number number' p p' hp ↦ ?_⟩
  rw [hempty] at hp
  exact nomatch hp

/-- No cell is behind two addresses. -/
theorem Exclusive.cell_inj {m : Memory} (h : m.Exclusive) {n n' : Nat} {c : FrameId × Nat}
    (hn : m.space.cell? n = some c) (hn' : m.space.cell? n' = some c) : n = n' := by
  rw [AddressSpace.cell?, Option.map_eq_some_iff] at hn hn'
  obtain ⟨p, hp, rfl⟩ := hn
  obtain ⟨p', hp', hcell⟩ := hn'
  obtain ⟨hframe, hoffset⟩ := Prod.mk.inj hcell
  have hpage := h.frame_inj _ _ _ _ hp' hp hframe
  rw [← Nat.div_add_mod n pageSize, ← Nat.div_add_mod n' pageSize, hpage, hoffset]

/-! ### Stores -/

/-- A byte string that is poked into memory shows at an address as it would in a view, if no other
address that it is poked to has the same cell. -/
theorem byte_view_poke {m m' : Memory} {a : Address} {bytes : List UInt8}
    (h : m.poke a bytes = .ok m') {n : Nat}
    (hinj : ∀ n' c, a.toNat ≤ n' → n' < a.toNat + bytes.length → m.space.cell? n = some c →
      m.space.cell? n' = some c → n' = n) :
    m'.view.byte n = (m.view.put a.toNat bytes).byte n := by
  obtain ⟨hcheck, rfl⟩ := poke_eq_ok.mp h
  have hspace : (m.store a bytes).space = m.space := rfl
  have hlow (i : Nat) : a.toNat ≤ a.toNat + i := Nat.le_add_right _ _
  have hhigh {i : Nat} (hi : i < bytes.length) : a.toNat + i < a.toNat + bytes.length :=
    Nat.add_lt_add_left hi _
  rw [View.byte_put, byte_view, byte_view, hspace, contents_store]
  by_cases hn : a.toNat ≤ n ∧ n < a.toNat + bytes.length
  · have hmapped : ∃ c, m.space.cell? n = some c := by
      rcases (m.checkRange_eq_ok _ _ _ _).mp hcheck with hzero | ⟨_, hpermits⟩
      · omega
      · obtain ⟨p, hp, _⟩ := hpermits n hn.1 hn.2
        exact ⟨(p.frame, n % pageSize), by rw [AddressSpace.cell?, hp, Option.map_some]⟩
    obtain ⟨c, hc⟩ := hmapped
    rw [if_pos hn, hc, Option.map_some, Option.getD_some,
      assign_spread_of_unique _ hc hn.1 hn.2 fun i hi hsame ↦
        hinj _ c (hlow i) (hhigh hi) hc hsame]
  · rw [if_neg hn]
    cases hc : m.space.cell? n with
    | none => rfl
    | some c =>
      have hne : ∀ i < bytes.length, m.space.cell? (a.toNat + i) ≠ some c := by
        intro i hi hi'
        have hsame := hinj _ c (hlow i) (hhigh hi) hc hi'
        omega
      rw [Option.map_some, assign_spread_of_ne _ hne, Option.map_some]

/-- Bytes poked into memory are the bytes of consecutive addresses. -/
theorem view_poke {m m' : Memory} (hm : m.Exclusive) {a : Address} {bytes : List UInt8}
    (h : m.poke a bytes = .ok m') : m'.Exclusive ∧ m'.view = m.view.put a.toNat bytes := by
  have hstored := stored_poke h
  refine ⟨⟨(hstored.succeeds hm.toWellFormed).wellFormed, ?_⟩, ?_⟩
  · rw [hstored.space]
    exact hm.frame_inj
  · ext1
    · exact permissions_view_congr hstored.space
    · exact funext fun n ↦ byte_view_poke h fun _ _ _ _ hn hn' ↦ hm.cell_inj hn' hn

/-! ### Mappings -/

/-- A private mapping gives each of its pages a frame of its own, with the bytes of the backing. -/
theorem insertPages_of_isPrivate {m m' : Memory} (hm : m.WellFormed) {r : PageRange}
    {p : Permissions} {b : Backing} {region : Region} (hprivate : b.isPrivate)
    (h : m.insertPages r p b = .ok (region, m')) :
    (∀ number, m'.space.pages[number]? =
      if r.contains number then
        some ⟨⟨p, b.kind, b.name⟩, m.frames.next + (number - r.first)⟩
      else m.space.pages[number]?) ∧
    ∀ id, m'.frames.frame id =
      if m.frames.next ≤ id ∧ id < m.frames.next + r.count then
        .ofBytes (b.pageBytes (id - m.frames.next))
      else m.frames.frame id := by
  obtain ⟨first, hprepare, _, _, hpages⟩ := insertPages_eq_ok h
  obtain ⟨rfl, _, hframe⟩ := prepareFrames_of_isPrivate hprivate hprepare hm.fresh
  exact ⟨hpages, hframe⟩

/-- No frame of a private mapping is behind a second page. -/
theorem eq_of_insertPages {m m' : Memory} (hm : m.WellFormed) {r : PageRange} {p : Permissions}
    {b : Backing} {region : Region} (hprivate : b.isPrivate)
    (h : m.insertPages r p b = .ok (region, m')) {number number' : Nat} {q q' : Page}
    (hin : r.contains number = true) (hq : m'.space.pages[number]? = some q)
    (hq' : m'.space.pages[number']? = some q') (hframe : q.frame = q'.frame) :
    number = number' := by
  obtain ⟨hpages, _⟩ := insertPages_of_isPrivate hm hprivate h
  rw [hpages] at hq hq'
  rw [if_pos hin, Option.some.injEq] at hq
  subst hq
  rw [PageRange.contains_iff] at hin
  by_cases hin' : r.contains number' = true
  · rw [if_pos hin', Option.some.injEq] at hq'
    subst hq'
    rw [PageRange.contains_iff] at hin'
    have hplace : number - r.first = number' - r.first := Nat.add_left_cancel hframe
    omega
  · rw [if_neg hin'] at hq'
    have hlt := hm.mapped_lt number' q' hq'
    rw [← hframe] at hlt
    exact absurd hlt (Nat.not_lt_of_le (Nat.le_add_right _ _))

/-- A private mapping leaves memory exclusive. -/
theorem exclusive_map {m m' : Memory} (hm : m.Exclusive) {start : Address} {length : Nat}
    {p : Permissions} {b : Backing} {region : Region} (hprivate : b.isPrivate)
    (h : m.map start length p b = .ok (region, m')) : m'.Exclusive := by
  have hwf := hm.toWellFormed
  have hrun : ∀ run, b = .shared run → run.first + run.count ≤ m.frames.next := by
    intro run hb
    rw [hb] at hprivate
    exact nomatch hprivate
  obtain ⟨r, hrange, _, hinsert⟩ := map_eq_ok h
  refine ⟨(succeeds_map hwf h hrun).wellFormed, fun number number' q q' hq hq' hframe ↦ ?_⟩
  by_cases hin : r.contains number = true
  · exact eq_of_insertPages hwf hprivate hinsert hin hq hq' hframe
  by_cases hin' : r.contains number' = true
  · exact (eq_of_insertPages hwf hprivate hinsert hin' hq' hq hframe.symm).symm
  obtain ⟨hpages, _⟩ := insertPages_of_isPrivate hwf hprivate hinsert
  rw [hpages, if_neg hin] at hq
  rw [hpages, if_neg hin'] at hq'
  exact hm.frame_inj number number' q q' hq hq' hframe

/-- A private mapping lays its contents over a range of pages that was free. -/
theorem view_map {m m' : Memory} (hm : m.WellFormed) {start : Address} {length : Nat}
    {p : Permissions} {b : Backing} {region : Region} (hprivate : b.isPrivate)
    (h : m.map start length p b = .ok (region, m')) :
    ∃ r, PageRange.of? start length = .ok r ∧ m.view.IsFree r ∧
      m'.view = (m.view.permit r p).fill r b.byte := by
  obtain ⟨r, hrange, hfree, hinsert⟩ := map_eq_ok h
  rw [AddressSpace.firstMapped?_eq_none] at hfree
  obtain ⟨hpages, hframe⟩ := insertPages_of_isPrivate hm hprivate hinsert
  refine ⟨r, hrange, fun number hnumber ↦ ?_, ?_⟩
  · simp only [view, hfree number hnumber, Option.map_none]
  ext1
  · funext number
    simp only [view, View.permissions_fill, View.permissions_permit, hpages]
    by_cases hin : r.contains number = true
    · rw [if_pos hin, if_pos hin]
      rfl
    · rw [if_neg hin, if_neg hin]
  · funext n
    simp only [view, View.byte_fill, View.byte_permit, AddressSpace.cell?, hpages]
    by_cases hin : r.contains (n / pageSize) = true
    · rw [if_pos hin, if_pos hin]
      rw [PageRange.contains_iff] at hin
      have hfresh : m.frames.next ≤ m.frames.next + (n / pageSize - r.first) ∧
          m.frames.next + (n / pageSize - r.first) < m.frames.next + r.count := by lia
      have hoffset : n % pageSize < pageSize := Nat.mod_lt _ (by decide)
      have hplace : (n / pageSize - r.first) * pageSize + n % pageSize =
          n - r.first * pageSize := by
        simp only [pageSize] at *
        omega
      simp only [Option.map_some, Option.getD_some, FrameStore.contents, hframe, if_pos hfresh,
        Nat.add_sub_cancel_left]
      rw [Frame.get_ofBytes _ hoffset, b.getD_pageBytes _ hoffset, hplace]
    · rw [if_neg hin, if_neg hin]
      cases hpage : m.space.pages[n / pageSize]? with
      | none => rfl
      | some q =>
        have hlt := hm.mapped_lt _ _ hpage
        have hold : ¬ (m.frames.next ≤ q.frame ∧ q.frame < m.frames.next + r.count) :=
          fun h ↦ Nat.not_le_of_lt hlt h.1
        simp only [Option.map_some, Option.getD_some, FrameStore.contents, hframe, if_neg hold]

/-- A mapping of zeros shows in the permissions alone. -/
theorem view_mapZeros {m m' : Memory} (hm : m.WellFormed) {first count : Nat} {p : Permissions}
    (hfirst : first * pageSize < addressLimit)
    (h : (m.map (.ofPage first) (count * pageSize) p .anonymous).map (·.2) = .ok m') :
    m.view.IsFree ⟨first, count⟩ ∧ m'.view = m.view.permit ⟨first, count⟩ p := by
  obtain ⟨_, hmap⟩ := exists_ok_of_map_snd h
  obtain ⟨r, hrange, hfree, hview⟩ := view_map hm rfl hmap
  obtain rfl := PageRange.eq_of_of?_ofPage hfirst hrange
  exact ⟨hfree, hview.trans (fill_zero_view hfree p)⟩

/-- Free pages can be mapped with zeros. -/
theorem exists_mapZeros {m : Memory} {first count : Nat} (p : Permissions) (hcount : 0 < count)
    (hstop : (first + count) * pageSize < addressLimit) (hfree : m.view.IsFree ⟨first, count⟩) :
    ∃ m', (m.map (.ofPage first) (count * pageSize) p .anonymous).map (·.2) = .ok m' := by
  have hnone : m.space.firstMapped? ⟨first, count⟩ = none :=
    (AddressSpace.firstMapped?_eq_none _ _).mpr fun number hnumber ↦
      Option.map_eq_none_iff.mp (hfree number hnumber)
  rw [map, PageRange.of?_ofPage hcount hstop]
  simp only [bind, Except.bind, hnone]
  exact ⟨_, rfl⟩

theorem exclusive_mapZeros {m m' : Memory} (hm : m.Exclusive) {start : Address} {length : Nat}
    {p : Permissions} (h : (m.map start length p .anonymous).map (·.2) = .ok m') :
    m'.Exclusive := by
  obtain ⟨_, hmap⟩ := exists_ok_of_map_snd h
  exact exclusive_map hm rfl hmap

/-- Where all pages of a range are mapped, giving them permissions changes nothing else. -/
theorem view_setPermissions {m : Memory} (hm : m.Exclusive) {r : PageRange} (p : Permissions)
    (hmapped : ∀ number, r.contains number → m.view.permissions number ≠ none) :
    Exclusive { m with space := m.space.setPermissions r p } ∧
      view { m with space := m.space.setPermissions r p } = m.view.permit r p := by
  have hpages (number : Nat) := m.space.getElem?_setPermissions r p number
  have hframe (number : Nat) : (m.space.setPermissions r p).pages[number]?.map Page.frame =
      m.space.pages[number]?.map Page.frame := by
    rw [hpages, Option.map_map]
    congr 1
    funext page
    rw [Function.comp_apply]
    split <;> rfl
  refine ⟨⟨(succeeds_setPermissions hm.toWellFormed r p).wellFormed, ?_⟩, ?_⟩
  · intro number number' q q' hq hq' hsame
    have hold := hframe number
    have hold' := hframe number'
    rw [hq, Option.map_some, eq_comm, Option.map_eq_some_iff] at hold
    rw [hq', Option.map_some, eq_comm, Option.map_eq_some_iff] at hold'
    obtain ⟨page, hpage, heq⟩ := hold
    obtain ⟨page', hpage', heq'⟩ := hold'
    exact hm.frame_inj number number' page page' hpage hpage'
      (heq.trans (hsame.trans heq'.symm))
  ext1
  · funext number
    rw [View.permissions_permit, permissions_view, hpages, Option.map_map]
    by_cases hin : r.contains number = true
    · have hsome := hmapped number hin
      rw [permissions_view, Ne, Option.map_eq_none_iff] at hsome
      obtain ⟨page, hpage⟩ := Option.ne_none_iff_exists'.mp hsome
      rw [if_pos hin, hpage, Option.map_some, Function.comp_apply, if_pos hin]
    · rw [if_neg hin, permissions_view]
      congr 1
      funext page
      rw [Function.comp_apply, if_neg hin]
  · funext n
    have hcell : (m.space.setPermissions r p).cell? n = m.space.cell? n := by
      have hmap := congrArg (Option.map (·, n % pageSize)) (hframe (n / pageSize))
      rwa [Option.map_map, Option.map_map] at hmap
    rw [View.byte_permit, byte_view, byte_view, hcell]

end Memory

end LongMode
