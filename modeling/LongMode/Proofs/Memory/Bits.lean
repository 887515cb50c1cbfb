import LongMode.Proofs.Memory.Copies

/-!
Memory as bits. The bits of a little-endian word are those of its bytes in order
(`Memory.getLsbD_word`). The bytes of a word lie in different cells, because they are at different
offsets in their frames (`AddressSpace.eq_of_cell?_add`), so a word that was stored is found again
(`Memory.word_of_contents`); and a word that is stored with one bit changed changes one bit of one
cell (`Memory.BitReplaced.of_word`).
-/

set_option autoImplicit false
set_option relaxedAutoImplicit false

namespace LongMode

/-! ### Bits of numbers and their bytes -/

namespace LittleEndian

/-- Eight bits of a number are in each of its bytes. -/
theorem testBit_toNat (bytes : List UInt8) (i : Nat) :
    (toNat bytes).testBit i = (bytes.getD (i / 8) 0).toBitVec.getLsbD (i % 8) := by
  induction bytes generalizing i with
  | nil =>
    rw [toNat, Nat.zero_testBit, List.getD_nil]
    exact BitVec.getLsbD_zero.symm
  | cons b bs ih =>
    have hb : b.toNat < 2 ^ 8 := b.toNat_lt
    have hsum : b.toNat + 256 * toNat bs = 2 ^ 8 * toNat bs + b.toNat := Nat.add_comm _ _
    rw [toNat, hsum, Nat.testBit_two_pow_mul_add _ hb]
    split
    next hlow =>
      rw [Nat.div_eq_of_lt hlow, Nat.mod_eq_of_lt hlow]
      rfl
    next hhigh =>
      obtain ⟨j, rfl⟩ := Nat.exists_eq_add_of_le (Nat.le_of_not_lt hhigh)
      rw [Nat.add_sub_cancel_left, ih, Nat.add_mod_left, Nat.add_div_left j (by decide)]
      rfl

/-- A word comes back from its bytes. -/
theorem ofNat_toNat_ofNat {size : Nat} (v : BitVec (8 * size)) :
    BitVec.ofNat (8 * size) (toNat (ofNat size v.toNat)) = v := by
  have hpow : 2 ^ (8 * size) = 256 ^ size := Nat.pow_mul 2 8 size
  rw [toNat_ofNat (hpow ▸ v.isLt), BitVec.ofNat_toNat, BitVec.setWidth_eq]

end LittleEndian

namespace AddressSpace

/-- The addresses of a range that is no longer than a page have different cells. -/
theorem eq_of_cell?_add {s : AddressSpace} {n i j : Nat} {c : FrameId × Nat} (hi : i < pageSize)
    (hj : j < pageSize) (hci : s.cell? (n + i) = some c) (hcj : s.cell? (n + j) = some c) :
    i = j := by
  have hoffset : (n + i) % pageSize = (n + j) % pageSize :=
    (offset_of_cell? hci).symm.trans (offset_of_cell? hcj)
  simp only [pageSize] at *
  omega

end AddressSpace

namespace Memory

/-! ### Bits at addresses -/

/-- A bit of the byte at an address. -/
def bit (m : Memory) (a : Address) (index : Nat) : Bool :=
  (m.byte a).toBitVec.getLsbD index

section Words

variable (m : Memory) (a : Address) {size : Nat}

/-- The bits of a word are those at the addresses of its bytes. -/
theorem getLsbD_word {i : Nat} (h : i < 8 * size) :
    (m.word a size).getLsbD i = m.bit (a + BitVec.ofNat 64 (i / 8)) (i % 8) := by
  have hbyte : i / 8 < size := Nat.div_lt_of_lt_mul h
  rw [word, BitVec.getLsbD_ofNat, decide_eq_true h, Bool.true_and, LittleEndian.testBit_toNat,
    List.getD_eq_getElem?_getD, getElem?_bytes m a hbyte]
  rfl

/-- The bits of a word are those in the cells of its bytes. -/
theorem getLsbD_contents {j k : Nat} {c : FrameId × Nat} (hlt : a.toNat + j < addressLimit)
    (hj : j < size) (hk : k < 8) (hc : m.space.cell? (a.toNat + j) = some c) :
    (m.frames.contents c).toBitVec.getLsbD k = (m.word a size).getLsbD (8 * j + k) := by
  have hdiv : (8 * j + k) / 8 = j := by omega
  have hmod : (8 * j + k) % 8 = k := by omega
  rw [← Address.toNat_add_ofNat a hlt] at hc
  rw [getLsbD_word m a (by omega), hdiv, hmod, bit, m.byte_eq_contents hc]

end Words

/-- There is a cell behind each address of a range that is not refused. -/
theorem exists_cell?_of_check (m : Memory) {access : Access} {a : Address} {size j : Nat}
    (hcheck : m.check access a size = .ok ()) (hj : j < size) :
    ∃ c, m.space.cell? (a.toNat + j) = some c := by
  rcases (m.check_eq_ok access a size).mp hcheck with hzero | ⟨_, hpermits⟩
  · exact absurd (hzero ▸ hj) (Nat.not_lt_zero j)
  · obtain ⟨p, hp, _⟩ := hpermits (a.toNat + j) (Nat.le_add_right _ _) (Nat.add_lt_add_left hj _)
    exact ⟨_, Option.map_eq_some_iff.mpr ⟨p, hp, rfl⟩⟩

/-- A range that is not refused ends with the last address of all or before it. -/
theorem end_le_of_check (m : Memory) {access : Access} {a : Address} {size : Nat}
    (hcheck : m.check access a size = .ok ()) : a.toNat + size ≤ addressLimit := by
  rcases (m.check_eq_ok access a size).mp hcheck with rfl | ⟨hend, _⟩
  · exact Nat.le_of_lt a.toNat_lt
  · exact hend

/-! ### Words with one bit changed -/

/-- The bit of an address is given a value. All other bits of all cells are as before, those of
cells that no address reaches among them, and so are the pages. -/
structure BitReplaced (m : Memory) (a : Address) (index : Nat) (value : Bool) (m' : Memory) :
    Prop where
  space : m'.space = m.space
  replaced : m'.bit a index = value
  others : ∀ (c : FrameId × Nat) (k : Nat),
    ¬(m.space.cell? a.toNat = some c ∧ k = index) →
      (m'.frames.contents c).toBitVec.getLsbD k = (m.frames.contents c).toBitVec.getLsbD k

/-- Nothing changes if a bit is given the value that it has. -/
theorem BitReplaced.refl (m : Memory) (a : Address) (index : Nat) :
    m.BitReplaced a index (m.bit a index) m :=
  ⟨rfl, rfl, fun _ _ _ ↦ rfl⟩

section Store

variable {m m' : Memory} {access : Access} {a : Address} {size : Nat} {new : BitVec (8 * size)}
  (hcheck : m.check access a size = .ok ()) (hsize : size ≤ pageSize) (hspace : m'.space = m.space)
  (hcontents : m'.frames.contents = FrameStore.assign m.frames.contents
    (spread m.space.cell? a.toNat (LittleEndian.ofNat size new.toNat)))

include hcheck hsize hspace hcontents

/-- A word that was stored is found again. -/
theorem word_of_contents : m'.word a size = new := by
  have hend := m.end_le_of_check hcheck
  have hbytes : m'.bytes a size = LittleEndian.ofNat size new.toNat := by
    refine List.ext_getElem? fun j ↦ ?_
    by_cases hj : j < size
    · obtain ⟨c, hc⟩ := m.exists_cell?_of_check hcheck hj
      have hc' : m'.space.cell? (a + BitVec.ofNat 64 j).toNat = some c := by
        rw [hspace, Address.toNat_add_ofNat a (by omega), hc]
      have hlength := LittleEndian.length_ofNat size new.toNat
      rw [m'.getElem?_bytes a hj, m'.byte_eq_contents hc', hcontents,
        assign_spread_of_unique _ hc (Nat.le_add_right _ _) (by omega), Nat.add_sub_cancel_left,
        List.getD_eq_getElem?_getD, List.getElem?_eq_getElem (by omega)]
      · rfl
      · intro j' hj' hc''
        rw [hlength] at hj'
        rw [AddressSpace.eq_of_cell?_add (by omega) (by omega) hc'' hc]
    · have hge := Nat.le_of_not_lt hj
      rw [List.getElem?_eq_none (by rwa [length_bytes]),
        List.getElem?_eq_none (by rwa [LittleEndian.length_ofNat])]
  rw [word, hbytes, LittleEndian.ofNat_toNat_ofNat]

/-- A word is stored that differs from the one before in one bit. -/
theorem BitReplaced.of_word {i : Nat} {value : Bool} (hi : i < 8 * size)
    (hnew : ∀ j < 8 * size, new.getLsbD j = if j = i then value else (m.word a size).getLsbD j) :
    m.BitReplaced (a + BitVec.ofNat 64 (i / 8)) (i % 8) value m' := by
  have hend := m.end_le_of_check hcheck
  have hword := word_of_contents hcheck hsize hspace hcontents
  refine ⟨hspace, ?_, fun c k hother ↦ ?_⟩
  · rw [← m'.getLsbD_word a hi, hword, hnew i hi, if_pos rfl]
  by_cases hk : k < 8
  · by_cases hin : ∃ j < size, m.space.cell? (a.toNat + j) = some c
    · obtain ⟨j, hj, hc⟩ := hin
      have hlt : a.toNat + j < addressLimit := by omega
      have hne : 8 * j + k ≠ i := by
        rintro rfl
        have hdiv : (8 * j + k) / 8 = j := by omega
        rw [hdiv, Address.toNat_add_ofNat a hlt] at hother
        exact hother ⟨hc, by omega⟩
      have hafter := m'.getLsbD_contents a hlt hj hk (hspace ▸ hc)
      rw [hafter, hword, hnew _ (by omega), if_neg hne, m.getLsbD_contents a hlt hj hk hc]
    · rw [hcontents, assign_spread_of_ne]
      intro j hj hc
      rw [LittleEndian.length_ofNat] at hj
      exact hin ⟨j, hj, hc⟩
  · have hge := Nat.le_of_not_lt hk
    rw [BitVec.getLsbD_of_ge _ _ hge, BitVec.getLsbD_of_ge _ _ hge]

end Store

end Memory

end LongMode
