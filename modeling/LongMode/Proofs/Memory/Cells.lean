import LongMode.Proofs.Memory.Access
import LongMode.Proofs.Memory.Evolution
import Mathlib.Algebra.Group.Nat.Defs

/-!
Stores as assignments to cells. A cell is a frame together with an offset, and an address space
resolves an address to the cell behind it. However a byte string is cut at page boundaries, storing
it gives the cells of consecutive addresses its bytes, one after the other in ascending order
(`contents_store`); where two addresses of the range resolve to one cell, the later byte stays.

The same holds of an indivisible update, which stores the word it computes even if it leaves memory
alone because that word was there already (`contents_atomicUpdate`).
-/

set_option autoImplicit false
set_option relaxedAutoImplicit false

namespace LongMode

/-! ### Numbers and their bytes -/

namespace LittleEndian

theorem toNat_lt (bytes : List UInt8) : toNat bytes < 2 ^ (8 * bytes.length) := by
  induction bytes with
  | nil => simp [toNat]
  | cons b bs ih =>
    have hb : b.toNat < 256 := b.toNat_lt
    have hpow : 2 ^ (8 * (bs.length + 1)) = 256 * 2 ^ (8 * bs.length) := by
      rw [Nat.mul_add, Nat.pow_add, Nat.mul_comm]
    rw [toNat, List.length_cons, hpow]
    omega

theorem ofNat_toNat (bytes : List UInt8) : ofNat bytes.length (toNat bytes) = bytes := by
  induction bytes with
  | nil => rfl
  | cons b bs ih =>
    have hb : b.toNat < 256 := b.toNat_lt
    have hdiv : (b.toNat + 256 * toNat bs) / 256 = toNat bs := by omega
    have hmod : UInt8.ofNat (b.toNat + 256 * toNat bs) = b := by
      rw [← UInt8.toNat_inj, UInt8.toNat_ofNat']
      omega
    rw [List.length_cons, toNat, ofNat, hdiv, hmod, ih]

/-- A number that fits comes back from its bytes. -/
theorem toNat_ofNat {count n : Nat} (h : n < 256 ^ count) : toNat (ofNat count n) = n := by
  induction count generalizing n with
  | zero =>
    rw [Nat.pow_zero, Nat.lt_one_iff] at h
    rw [h]
    rfl
  | succ count ih =>
    have hdiv : n / 256 < 256 ^ count := Nat.div_lt_of_lt_mul (by rwa [Nat.pow_succ'] at h)
    rw [ofNat, toNat, ih hdiv, UInt8.toNat_ofNat']
    omega

end LittleEndian

/-! ### Byte strings over cells -/

/-- The cells that consecutive numbers from `n` on resolve to, with the bytes of a string in order.
A number that resolves to no cell takes no byte. -/
def spread {Cell : Type} (resolve : Nat → Option Cell) (n : Nat) :
    List UInt8 → List (Cell × UInt8)
  | [] => []
  | b :: bs => ((resolve n).map (·, b)).toList ++ spread resolve (n + 1) bs

theorem spread_append {Cell : Type} (resolve : Nat → Option Cell) (n : Nat) (xs ys : List UInt8) :
    spread resolve n (xs ++ ys) = spread resolve n xs ++ spread resolve (n + xs.length) ys := by
  induction xs generalizing n with
  | nil => rfl
  | cons x xs ih =>
    have hn : n + 1 + xs.length = n + (xs.length + 1) := by omega
    rw [List.cons_append, spread, spread, ih, List.append_assoc, List.length_cons, hn]

theorem mem_spread {Cell : Type} {resolve : Nat → Option Cell} {n : Nat} {bytes : List UInt8}
    {store : Cell × UInt8} (h : store ∈ spread resolve n bytes) :
    ∃ i, resolve i = some store.1 := by
  induction bytes generalizing n with
  | nil => exact nomatch h
  | cons b bs ih =>
    rw [spread, List.mem_append] at h
    rcases h with h | h
    · rw [Option.mem_toList, Option.map_eq_some_iff] at h
      obtain ⟨c, hc, rfl⟩ := h
      exact ⟨n, hc⟩
    · exact ih h

/-- Cells that are given the bytes they have keep them. -/
theorem assign_spread_self {Cell : Type} [DecidableEq Cell] (f : Cell → UInt8)
    (resolve : Nat → Option Cell) (n : Nat) (bytes : List UInt8)
    (h : ∀ (i : Nat) (c : Cell), i < bytes.length → resolve (n + i) = some c →
      bytes[i]? = some (f c)) :
    FrameStore.assign f (spread resolve n bytes) = f := by
  induction bytes generalizing n with
  | nil => rfl
  | cons b bs ih =>
    have hrest : FrameStore.assign f (spread resolve (n + 1) bs) = f := by
      refine ih (n + 1) fun i c hi hc ↦ ?_
      have hn : n + 1 + i = n + (i + 1) := by omega
      rw [hn] at hc
      exact h (i + 1) c (Nat.succ_lt_succ hi) hc
    rw [spread, FrameStore.assign_append]
    cases hc : resolve n with
    | none => exact hrest
    | some c =>
      have hb : b = f c := by simpa using h 0 c (Nat.zero_lt_succ _) hc
      have hfirst : FrameStore.assign f [(c, b)] = f := by
        rw [hb]
        exact Function.update_eq_self c f
      simpa [hfirst] using hrest

/-! ### One cell in a byte string -/

section OneCell

variable {Cell Cell' : Type} [DecidableEq Cell] [DecidableEq Cell']

theorem assign_toList_map (f : Cell → UInt8) (place : Option Cell) (b : UInt8) (c : Cell) :
    FrameStore.assign f (place.map (·, b)).toList c = if place = some c then b else f c := by
  cases place with
  | none => rfl
  | some c' =>
    by_cases h : c' = c
    · subst h
      simp [FrameStore.assign]
    · simp [FrameStore.assign, h, Ne.symm h]

/-- Two cells that the same numbers resolve to, and that have the same byte, have the same byte
after a string was stored. -/
theorem assign_spread_congr {resolve : Nat → Option Cell} {resolve' : Nat → Option Cell'} {c : Cell}
    {d : Cell'} (h : ∀ n, resolve n = some c ↔ resolve' n = some d) (n : Nat) (bytes : List UInt8)
    {f : Cell → UInt8} {g : Cell' → UInt8} (hbyte : f c = g d) :
    FrameStore.assign f (spread resolve n bytes) c =
      FrameStore.assign g (spread resolve' n bytes) d := by
  induction bytes generalizing n f g with
  | nil => exact hbyte
  | cons b bs ih =>
    rw [spread, spread, FrameStore.assign_append, FrameStore.assign_append]
    refine ih (n + 1) ?_
    rw [assign_toList_map, assign_toList_map, hbyte]
    by_cases hn : resolve n = some c
    · rw [if_pos hn, if_pos ((h n).mp hn)]
    · rw [if_neg hn, if_neg (hn ∘ (h n).mpr)]

/-- A cell that no number of the range resolves to keeps its byte. -/
theorem assign_spread_of_ne {resolve : Nat → Option Cell} {c : Cell} {n : Nat}
    {bytes : List UInt8} (f : Cell → UInt8) (h : ∀ i < bytes.length, resolve (n + i) ≠ some c) :
    FrameStore.assign f (spread resolve n bytes) c = f c := by
  induction bytes generalizing n f with
  | nil => rfl
  | cons b bs ih =>
    have hfirst : resolve n ≠ some c := h 0 (Nat.zero_lt_succ _)
    rw [spread, FrameStore.assign_append, ih, assign_toList_map, if_neg hfirst]
    intro i hi
    rw [Nat.add_assoc, Nat.add_comm 1 i]
    exact h (i + 1) (Nat.succ_lt_succ hi)

/-- A cell gets the byte of the last number of the range that resolves to it. -/
theorem assign_spread_of_last {resolve : Nat → Option Cell} {c : Cell} {n k : Nat}
    {bytes : List UInt8} (f : Cell → UInt8) (hk : resolve k = some c) (hlow : n ≤ k)
    (hhigh : k < n + bytes.length)
    (hlast : ∀ i < bytes.length, resolve (n + i) = some c → n + i ≤ k) :
    FrameStore.assign f (spread resolve n bytes) c = bytes.getD (k - n) 0 := by
  induction bytes generalizing n f with
  | nil => exact absurd hhigh (Nat.not_lt_of_le hlow)
  | cons b bs ih =>
    have hrest : ∀ i < bs.length, resolve (n + 1 + i) = some c → n + 1 + i ≤ k := by
      intro i hi hc
      rw [Nat.add_assoc, Nat.add_comm 1 i] at hc ⊢
      exact hlast (i + 1) (Nat.succ_lt_succ hi) hc
    rw [spread, FrameStore.assign_append]
    rcases Nat.eq_or_lt_of_le hlow with rfl | hlt
    · have hlater : ∀ i < bs.length, resolve (n + 1 + i) ≠ some c := by
        intro i hi hc
        have hle := hrest i hi hc
        omega
      rw [assign_spread_of_ne _ hlater, assign_toList_map, if_pos hk, Nat.sub_self,
        List.getD_cons_zero]
    · have hindex : k - n = k - (n + 1) + 1 := by omega
      rw [List.length_cons] at hhigh
      rw [ih _ hlt (by omega) hrest, hindex, List.getD_cons_succ]

/-- A cell that one number of the range resolves to, and no other, gets the byte of that number. -/
theorem assign_spread_of_unique {resolve : Nat → Option Cell} {c : Cell} {n k : Nat}
    {bytes : List UInt8} (f : Cell → UInt8) (hk : resolve k = some c) (hlow : n ≤ k)
    (hhigh : k < n + bytes.length)
    (hunique : ∀ i < bytes.length, resolve (n + i) = some c → n + i = k) :
    FrameStore.assign f (spread resolve n bytes) c = bytes.getD (k - n) 0 :=
  assign_spread_of_last f hk hlow hhigh fun i hi hc ↦ Nat.le_of_eq (hunique i hi hc)

/-- Strings that go to different cells can be stored in either order. -/
theorem assign_spread_comm {resolve : Nat → Option Cell} {n n' : Nat} {bytes bytes' : List UInt8}
    (h : ∀ i < bytes.length, ∀ j < bytes'.length, ∀ c, resolve (n + i) = some c →
      resolve (n' + j) ≠ some c) (f : Cell → UInt8) :
    FrameStore.assign (FrameStore.assign f (spread resolve n bytes)) (spread resolve n' bytes') =
      FrameStore.assign (FrameStore.assign f (spread resolve n' bytes')) (spread resolve n bytes) := by
  funext c
  by_cases hc : ∃ i < bytes.length, resolve (n + i) = some c
  · obtain ⟨i, hi, hresolve⟩ := hc
    have hother (g : Cell → UInt8) :
        FrameStore.assign g (spread resolve n' bytes') c = g c :=
      assign_spread_of_ne g fun j hj ↦ h i hi j hj c hresolve
    rw [hother]
    exact (assign_spread_congr (fun _ ↦ Iff.rfl) n bytes (hother f)).symm
  · have hother (g : Cell → UInt8) : FrameStore.assign g (spread resolve n bytes) c = g c :=
      assign_spread_of_ne g fun i hi hresolve ↦ hc ⟨i, hi, hresolve⟩
    rw [hother]
    exact assign_spread_congr (fun _ ↦ Iff.rfl) n' bytes' (hother f)

end OneCell

/-! ### Cells of an address space -/

/-- The frame and offset that a number, taken for an address, resolves to. -/
def AddressSpace.cell? (s : AddressSpace) (n : Nat) : Option (FrameId × Nat) :=
  s.pages[n / pageSize]?.map fun p ↦ (p.frame, n % pageSize)

/-- The offset of a cell in its frame is that of its address in the page. -/
theorem AddressSpace.offset_of_cell? {s : AddressSpace} {n : Nat} {c : FrameId × Nat}
    (h : s.cell? n = some c) : c.2 = n % pageSize := by
  obtain ⟨p, _, rfl⟩ := Option.map_eq_some_iff.mp h
  rfl

theorem AddressSpace.cell?_of_offset (s : AddressSpace) (page : Nat) {offset : Nat}
    (h : offset < pageSize) :
    s.cell? (page * pageSize + offset) = s.pages[page]?.map fun p ↦ (p.frame, offset) := by
  have hdiv : (page * pageSize + offset) / pageSize = page := by
    simp only [pageSize] at *
    omega
  have hmod : (page * pageSize + offset) % pageSize = offset := by
    simp only [pageSize] at *
    omega
  rw [cell?, hdiv, hmod]

/-- Bytes that stay in a page go to consecutive cells of one frame. -/
theorem AddressSpace.spread_cell? (s : AddressSpace) (page offset : Nat) (bytes : List UInt8)
    (h : offset + bytes.length ≤ pageSize) :
    spread s.cell? (page * pageSize + offset) bytes =
      match s.pages[page]? with
      | some p => FrameStore.cellsFrom p.frame offset bytes
      | none => [] := by
  induction bytes generalizing offset with
  | nil => cases s.pages[page]? <;> rfl
  | cons b bs ih =>
    simp only [List.length_cons] at h
    have hrest : offset + 1 + bs.length ≤ pageSize := by omega
    rw [spread, s.cell?_of_offset page (by omega), Nat.add_assoc, ih _ hrest]
    cases s.pages[page]? with
    | none => rfl
    | some p => rfl

namespace Memory

/-! ### One piece -/

theorem contents_storePiece (space : AddressSpace) (frames : FrameStore) (piece : Piece)
    (h : piece.offset + piece.bytes.length ≤ pageSize) :
    (storePiece space frames piece).contents =
      FrameStore.assign frames.contents
        (spread space.cell? (piece.page * pageSize + piece.offset) piece.bytes) := by
  rw [space.spread_cell? _ _ _ h, storePiece]
  cases space.pages[piece.page]? with
  | none => rfl
  | some p => exact frames.contents_write _ _ _ h

theorem contents_putPiece (space : AddressSpace) (frames : FrameStore) (piece : Piece)
    (h : piece.offset + piece.bytes.length ≤ pageSize) :
    (putPiece space frames piece).contents =
      FrameStore.assign frames.contents
        (spread space.cell? (piece.page * pageSize + piece.offset) piece.bytes) := by
  rw [space.spread_cell? _ _ _ h, putPiece]
  cases space.pages[piece.page]? with
  | none => rfl
  | some p => exact frames.contents_put _ _ _ h

/-! ### All pieces -/

section Pieces

variable (space : AddressSpace) (step : FrameStore → Piece → FrameStore)
  (hstep : ∀ (frames : FrameStore) (piece : Piece),
    piece.offset + piece.bytes.length ≤ pageSize →
      (step frames piece).contents = FrameStore.assign frames.contents
        (spread space.cell? (piece.page * pageSize + piece.offset) piece.bytes))

include hstep

/-- Pieces stored one after the other store the string they were cut from. -/
theorem contents_foldl_cut (count page offset : Nat) (bytes : List UInt8) (frames : FrameStore)
    (hoffset : offset ≤ pageSize) (hfit : offset + bytes.length ≤ count * pageSize) :
    ((cut count page offset bytes).foldl step frames).contents =
      FrameStore.assign frames.contents
        (spread space.cell? (page * pageSize + offset) bytes) := by
  induction count generalizing page offset bytes frames with
  | zero =>
    have hnil : bytes = [] := List.eq_nil_of_length_eq_zero (by omega)
    rw [hnil]
    rfl
  | succ count ih =>
    have hfirst : offset + (bytes.take (pageSize - offset)).length ≤ pageSize := by
      rw [List.length_take]
      omega
    have hrest : 0 + (bytes.drop (pageSize - offset)).length ≤ count * pageSize := by
      rw [List.length_drop]
      rw [Nat.succ_mul] at hfit
      omega
    have hsplit := spread_append space.cell? (page * pageSize + offset)
      (bytes.take (pageSize - offset)) (bytes.drop (pageSize - offset))
    rw [List.take_append_drop] at hsplit
    rw [cut, List.foldl_cons, ih (page + 1) 0 _ _ (Nat.zero_le _) hrest, hstep _ _ hfirst, hsplit,
      FrameStore.assign_append]
    by_cases hlong : pageSize - offset ≤ bytes.length
    · -- the next piece begins where the first page ends
      have hnext : page * pageSize + offset + (bytes.take (pageSize - offset)).length =
          (page + 1) * pageSize + 0 := by
        rw [List.length_take, Nat.min_eq_left hlong, Nat.succ_mul]
        omega
      rw [hnext]
    · have hnil : bytes.drop (pageSize - offset) = [] := List.drop_eq_nil_of_le (by omega)
      rw [hnil, spread, spread]

theorem contents_foldl_pieces (a : Address) (bytes : List UInt8) (frames : FrameStore) :
    ((pieces a bytes).foldl step frames).contents =
      FrameStore.assign frames.contents (spread space.cell? a.toNat bytes) := by
  rw [pieces]
  cases bytes with
  | nil => rfl
  | cons b bs =>
    have hfit : a.pageOffset + (b :: bs).length ≤
        roundUpToPage (a.pageOffset + (b :: bs).length) / pageSize * pageSize := by
      simp only [roundUpToPage, pageSize]
      omega
    rw [List.isEmpty_cons, if_neg Bool.false_ne_true, contents_foldl_cut space step hstep _ _ _ _ _
      (Nat.le_of_lt a.pageOffset_lt) hfit, a.page_mul_add_pageOffset]

end Pieces

variable (m : Memory)

/-- A store gives the cells of consecutive addresses the bytes of a string, in ascending order. -/
theorem contents_store (a : Address) (bytes : List UInt8) :
    (m.store a bytes).frames.contents =
      FrameStore.assign m.frames.contents (spread m.space.cell? a.toNat bytes) :=
  contents_foldl_pieces m.space (storePiece m.space) (contents_storePiece m.space) a bytes m.frames

theorem contents_storeCell (a : Address) (bytes : List UInt8) :
    (m.storeCell a bytes).frames.contents =
      FrameStore.assign m.frames.contents (spread m.space.cell? a.toNat bytes) := by
  rw [storeCell, FrameStore.contents_foldl_bump]
  exact contents_foldl_pieces m.space (putPiece m.space) (contents_putPiece m.space) a bytes
    m.frames

/-! ### Loads -/

@[simp] theorem length_bytes (a : Address) (count : Nat) : (m.bytes a count).length = count := by
  simp [bytes]

theorem getElem?_bytes (a : Address) {count i : Nat} (h : i < count) :
    (m.bytes a count)[i]? = some (m.byte (a + BitVec.ofNat 64 i)) := by
  simp [bytes, h]

/-- The byte at an address is the one in its cell. -/
theorem byte_eq_contents {a : Address} {c : FrameId × Nat} (h : m.space.cell? a.toNat = some c) :
    m.byte a = m.frames.contents c := by
  rw [AddressSpace.cell?, Option.map_eq_some_iff] at h
  obtain ⟨p, hp, rfl⟩ := h
  have hpage : m.page? a = some p := hp
  rw [byte, hpage]
  rfl

theorem byte_of_unmapped {a : Address} (h : m.page? a = none) : m.byte a = 0 := by
  rw [byte, h]

/-- The word of a cell, taken apart again, is the bytes of the cell. -/
theorem ofNat_word (a : Address) (size : Nat) :
    LittleEndian.ofNat size (m.word a size).toNat = m.bytes a size := by
  have hlt : LittleEndian.toNat (m.bytes a size) < 2 ^ (8 * size) := by
    simpa using LittleEndian.toNat_lt (m.bytes a size)
  rw [word, BitVec.toNat_ofNat, Nat.mod_eq_of_lt hlt]
  simpa using LittleEndian.ofNat_toNat (m.bytes a size)

/-- Storing the bytes that are there changes no byte. -/
theorem assign_bytes_self (a : Address) {size : Nat}
    (hend : size = 0 ∨ a.toNat + size ≤ addressLimit) :
    FrameStore.assign m.frames.contents (spread m.space.cell? a.toNat (m.bytes a size)) =
      m.frames.contents := by
  refine assign_spread_self _ _ _ _ fun i c hi hc ↦ ?_
  rw [length_bytes] at hi
  have hlt : a.toNat + i < addressLimit := by omega
  rw [m.getElem?_bytes a hi]
  rw [← Address.toNat_add_ofNat a hlt] at hc
  rw [m.byte_eq_contents hc]

/-- An indivisible update gives the cells of its operand the bytes of the new word. -/
theorem contents_atomicUpdate {m m' : Memory} {α : Type} {a : Address} {size : Nat}
    {f : BitVec (8 * size) → BitVec (8 * size) × α} {result : α}
    (h : m.atomicUpdate a size f = .ok (result, m')) :
    m'.frames.contents = FrameStore.assign m.frames.contents (spread m.space.cell? a.toNat
      (LittleEndian.ofNat size (f (m.word a size)).1.toNat)) := by
  obtain ⟨hread, _, _, rfl⟩ := atomicUpdate_eq_ok.mp h
  by_cases hsame : (f (m.word a size)).1 = m.word a size
  · have hend : size = 0 ∨ a.toNat + size ≤ addressLimit := by
      rcases (m.check_eq_ok .read a size).mp hread with hzero | ⟨hend, _⟩
      · exact .inl hzero
      · exact .inr hend
    rw [if_pos hsame, hsame, m.ofNat_word, m.assign_bytes_self a hend]
  · rw [if_neg hsame, m.contents_storeCell]

end Memory

end LongMode
