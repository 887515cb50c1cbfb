import LongMode.Proofs.Memory.Views

/-!
Addresses that have cells of their own (`Memory.Owns`), as those of a fresh private mapping have
(`owns_of_map`). Whatever else is mapped in the machine, a byte string that is poked there shows as
it does in a view: at its own addresses and nowhere else (`Owns.exists_poke`).

What is in memory is said of byte strings at addresses (`View.Holds`). A string that is held is what
loads give, of bytes, of words and of texts that end with a zero byte.
-/

set_option autoImplicit false
set_option relaxedAutoImplicit false

namespace LongMode

/-! ### Byte strings in a view -/

namespace View

/-- A byte string is there from an address on. -/
def Holds (v : View) (a : Nat) (bytes : List UInt8) : Prop :=
  ∀ i b, bytes[i]? = some b → v.byte (a + i) = b

variable {v v' : View} {a : Nat} {bytes : List UInt8}

theorem Holds.left {more : List UInt8} (h : v.Holds a (bytes ++ more)) : v.Holds a bytes := by
  intro i b hi
  have hlt := (List.getElem?_eq_some_iff.mp hi).1
  refine h i b ?_
  rw [List.getElem?_append_left hlt, hi]

theorem Holds.right {more : List UInt8} (h : v.Holds a (bytes ++ more)) :
    v.Holds (a + bytes.length) more := by
  intro i b hi
  rw [Nat.add_assoc]
  refine h _ b ?_
  rw [List.getElem?_append_right (Nat.le_add_right _ _), Nat.add_sub_cancel_left, hi]

/-- A byte string is held as long as none of its bytes changes. -/
theorem Holds.congr (h : v.Holds a bytes)
    (hsame : ∀ n, a ≤ n → n < a + bytes.length → v'.byte n = v.byte n) : v'.Holds a bytes := by
  intro i b hi
  have hlt := (List.getElem?_eq_some_iff.mp hi).1
  rw [hsame _ (Nat.le_add_right _ _) (Nat.add_lt_add_left hlt _)]
  exact h i b hi

/-- A byte string that was put somewhere is there. -/
theorem holds_put (v : View) (a : Nat) (bytes : List UInt8) : (v.put a bytes).Holds a bytes := by
  intro i b hi
  have hlt := (List.getElem?_eq_some_iff.mp hi).1
  rw [byte_put, if_pos ⟨Nat.le_add_right _ _, Nat.add_lt_add_left hlt _⟩, Nat.add_sub_cancel_left,
    List.getD_eq_getElem?_getD, hi, Option.getD_some]

/-- A byte string is at an address, between two bounds. -/
structure Lies (v : View) (low top : Nat) (a : Address) (bytes : List UInt8) : Prop where
  low_le : low ≤ a.toNat
  le_top : a.toNat + bytes.length ≤ top
  holds : v.Holds a.toNat bytes

/-- A byte string stays where it is while no byte above its lower bound changes. -/
theorem Lies.mono {low low' top : Nat} {a : Address} (h : v.Lies low top a bytes)
    (hle : low' ≤ low) (hsame : ∀ n, low ≤ n → v'.byte n = v.byte n) :
    v'.Lies low' top a bytes :=
  ⟨Nat.le_trans hle h.low_le, h.le_top,
    h.holds.congr fun n hn _ ↦ hsame n (Nat.le_trans h.low_le hn)⟩

end View

namespace Memory

/-! ### Cells of their own -/

/-- The addresses from `floor` up to `top` can be read and written, and none of them shares its cell
with another address. -/
structure Owns (m : Memory) (floor top : Nat) : Prop where
  top_lt : top < addressLimit
  mapped (n : Nat) : floor ≤ n → n < top →
    ∃ p : Page, m.space.pages[n / pageSize]? = some p ∧ p.permissions = .readWrite
  cell_inj (n n' : Nat) (c : FrameId × Nat) : floor ≤ n → n < top → m.space.cell? n = some c →
    m.space.cell? n' = some c → n' = n

variable {m m' : Memory} {floor top a : Nat} {bytes : List UInt8}

/-- A private mapping that can be read and written owns its addresses. -/
theorem owns_of_map (hm : m.WellFormed) {start : Address} {length : Nat} {b : Backing}
    {region : Region} {r : PageRange} (hprivate : b.isPrivate)
    (hrange : PageRange.of? start length = .ok r)
    (h : m.map start length .readWrite b = .ok (region, m')) :
    m'.Owns (r.first * pageSize) (r.stop * pageSize) := by
  have hstop := PageRange.stop_lt_of_of? hrange
  obtain ⟨r', hrange', _, hinsert⟩ := map_eq_ok h
  rw [hrange, Except.ok.injEq] at hrange'
  subst hrange'
  obtain ⟨hpages, _⟩ := insertPages_of_isPrivate hm hprivate hinsert
  have hin {n : Nat} (hlow : r.first * pageSize ≤ n) (hhigh : n < r.stop * pageSize) :
      r.contains (n / pageSize) = true := by
    rw [PageRange.contains_iff]
    simp only [PageRange.stop, pageSize] at *
    omega
  refine ⟨hstop, fun n hlow hhigh ↦ ?_, fun n n' c hlow hhigh hn hn' ↦ ?_⟩
  · rw [hpages, if_pos (hin hlow hhigh)]
    exact ⟨_, rfl, rfl⟩
  · rw [AddressSpace.cell?, Option.map_eq_some_iff] at hn hn'
    obtain ⟨p, hp, rfl⟩ := hn
    obtain ⟨p', hp', hcell⟩ := hn'
    obtain ⟨hframe, hoffset⟩ := Prod.mk.inj hcell
    have hpage := eq_of_insertPages hm hprivate hinsert (hin hlow hhigh) hp hp' hframe.symm
    rw [← Nat.div_add_mod n' pageSize, ← hpage, hoffset, Nat.div_add_mod]

namespace Owns

/-- Cells are a matter of the page table alone. -/
theorem of_space_eq (h : m.Owns floor top) (hspace : m'.space = m.space) : m'.Owns floor top :=
  ⟨h.top_lt, hspace ▸ h.mapped, hspace ▸ h.cell_inj⟩

theorem toNat_ofNat (h : m.Owns floor top) {n : Nat} (hn : n ≤ top) :
    (BitVec.ofNat 64 n).toNat = n :=
  Address.toNat_ofNat (Nat.lt_of_le_of_lt hn h.top_lt)

theorem checkRange (h : m.Owns floor top) {length : Nat} (hlow : floor ≤ a)
    (hhigh : a + length ≤ top) {access : Access}
    (haccess : Permissions.readWrite.allows access) {enforce : Bool} :
    m.checkRange access enforce (BitVec.ofNat 64 a) length = .ok () := by
  have htop := h.top_lt
  rw [checkRange_eq_ok, h.toNat_ofNat (by omega)]
  refine .inr ⟨by omega, fun n hn hn' ↦ ?_⟩
  obtain ⟨p, hp, hpermissions⟩ := h.mapped n (by omega) (by omega)
  exact ⟨p, hp, fun _ ↦ by rw [hpermissions, haccess]⟩

/-- A byte string can be poked, and shows at its own addresses and nowhere else. -/
theorem exists_poke (h : m.Owns floor top) (hlow : floor ≤ a) (hhigh : a + bytes.length ≤ top) :
    ∃ m', m.poke (BitVec.ofNat 64 a) bytes = .ok m' ∧ m'.space = m.space ∧
      m'.view = m.view.put a bytes := by
  have hcheck : m.checkRange .write false (BitVec.ofNat 64 a) bytes.length = .ok () :=
    h.checkRange hlow hhigh rfl
  have hpoke := poke_eq_ok.mpr ⟨hcheck, rfl⟩
  have htoNat : (BitVec.ofNat 64 a).toNat = a := h.toNat_ofNat (by omega)
  refine ⟨_, hpoke, rfl, ?_⟩
  ext1
  · rfl
  · funext n
    rw [byte_view_poke hpoke, htoNat]
    intro n' c hlow' hhigh' hn hn'
    rw [htoNat] at hlow' hhigh'
    exact (h.cell_inj n' n c (by omega) (by omega) hn' hn).symm

/-! ### Loads -/

/-- A byte string that is held is what a load gives. -/
theorem read_eq_ok (h : m.Owns floor top) (hlow : floor ≤ a) (hhigh : a + bytes.length ≤ top)
    (hholds : m.view.Holds a bytes) : m.read (BitVec.ofNat 64 a) bytes.length = .ok bytes := by
  have htop := h.top_lt
  refine Memory.read_eq_ok.mpr ⟨h.checkRange hlow hhigh rfl, ?_⟩
  refine List.ext_getElem? fun i ↦ ?_
  by_cases hi : i < bytes.length
  · have hb := List.getElem?_eq_getElem hi
    have hadd : (BitVec.ofNat 64 a + BitVec.ofNat 64 i).toNat = a + i := by
      rw [Address.toNat_add_ofNat _ (by rw [h.toNat_ofNat (by omega)]; omega),
        h.toNat_ofNat (by omega)]
    rw [m.getElem?_bytes _ hi, byte_eq_view, hadd, hb]
    exact congrArg some (hholds i _ hb)
  · rw [List.getElem?_eq_none (by rw [length_bytes]; omega), List.getElem?_eq_none (by omega)]

/-- The bytes of a word that are held are what a load of the word gives. -/
theorem readNat_eq_ok (h : m.Owns floor top) (hlow : floor ≤ a) (hhigh : a + 8 ≤ top)
    {w : BitVec 64} (hholds : m.view.Holds a (LittleEndian.ofNat 8 w.toNat)) :
    m.readNat (BitVec.ofNat 64 a) 8 = .ok w.toNat := by
  have hlength : (LittleEndian.ofNat 8 w.toNat).length = 8 := LittleEndian.length_ofNat _ _
  have hread := h.read_eq_ok hlow (by rwa [hlength]) hholds
  rw [hlength] at hread
  rw [readNat, hread]
  exact congrArg Except.ok (LittleEndian.toNat_ofNat w.isLt)

/-- A text that is held with a zero byte behind it is what a load of the text gives. -/
theorem readString_eq_ok (h : m.Owns floor top) (hlow : floor ≤ a)
    (hhigh : a + (bytes ++ [0]).length ≤ top) (hzero : 0 ∉ bytes)
    (hholds : m.view.Holds a (bytes ++ [0])) {limit : Nat} (hlimit : bytes.length < limit) :
    m.readString (BitVec.ofNat 64 a) limit = .ok bytes := by
  suffices hgo : ∀ collected, readString.go m limit (BitVec.ofNat 64 a) collected =
      .ok (collected.reverse ++ bytes) from hgo []
  induction bytes generalizing a limit with
  | nil =>
    intro collected
    obtain ⟨limit, rfl⟩ := Nat.exists_eq_succ_of_ne_zero (Nat.ne_zero_of_lt hlimit)
    have hread : m.read (BitVec.ofNat 64 a) 1 = .ok [0] := h.read_eq_ok hlow hhigh hholds
    rw [readString.go, hread, List.append_nil]
    rfl
  | cons b bytes ih =>
    intro collected
    obtain ⟨limit, rfl⟩ := Nat.exists_eq_succ_of_ne_zero (Nat.ne_zero_of_lt hlimit)
    rw [List.mem_cons, not_or] at hzero
    have hfirst : m.view.Holds a ([b] ++ (bytes ++ [0])) := hholds
    simp only [List.length_append, List.length_cons, List.length_nil] at hhigh hlimit
    have hread : m.read (BitVec.ofNat 64 a) 1 = .ok [b] :=
      h.read_eq_ok hlow (by rw [List.length_singleton]; omega) hfirst.left
    have hrest : readString.go m limit (BitVec.ofNat 64 (a + 1)) (b :: collected) =
        .ok ((b :: collected).reverse ++ bytes) :=
      ih (by omega) (by simp only [List.length_append, List.length_singleton]; omega) hzero.2
        hfirst.right (by omega) _
    have hnext : BitVec.ofNat 64 a + 1 = BitVec.ofNat 64 (a + 1) := (BitVec.ofNat_add _ _).symm
    rw [readString.go, hread]
    change (if b = 0 then _ else readString.go m limit _ (b :: collected)) = _
    rw [if_neg (Ne.symm hzero.1), hnext, hrest, List.reverse_cons, List.append_assoc]
    rfl

end Owns

end Memory

end LongMode
