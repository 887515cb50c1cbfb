import LongMode.Proofs.Linux.Histories
import LongMode.Proofs.Memory.Copies
import LongMode.Proofs.Memory.Refusals

/-!
What transfers between memory and descriptors are made of: the check of a descriptor, the check of a
buffer, and bytes that go to the buffer or come from it.

* What a buffer receives is said address by address, also where addresses further on have the same
  cell (`Memory.Receives`).
* A part of a call that needs the bytes at some addresses either ends with its value or fails, and
  changes nothing (`Call.Fetches`); such parts can be put together (`Call.Fetches.bind`).
-/

set_option autoImplicit false
set_option relaxedAutoImplicit false

namespace LongMode

/-! ### Consecutive addresses -/

/-- Consecutive addresses, counted around the end of memory. -/
def addresses (a : Address) (count : Nat) : List Address :=
  (List.range count).map fun i ↦ a + BitVec.ofNat 64 i

@[simp] theorem length_addresses (a : Address) (count : Nat) :
    (addresses a count).length = count := by
  rw [addresses, List.length_map, List.length_range]

theorem addresses_add (a : Address) (count count' : Nat) :
    addresses a (count + count') =
      addresses a count ++ addresses (a + BitVec.ofNat 64 count) count' := by
  rw [addresses, List.range_add, List.map_append, List.map_map]
  refine congrArg (addresses a count ++ ·) (List.map_congr_left fun i _ ↦ ?_)
  rw [Function.comp_apply, BitVec.ofNat_add, BitVec.add_assoc]

theorem take_addresses (a : Address) (count room : Nat) :
    (addresses a count).take room = addresses a (min count room) := by
  rw [addresses, ← List.map_take, List.take_range, Nat.min_comm]
  rfl

namespace Memory

variable {m m' : Memory} {access : Access} {a : Address} {length : Nat} {bytes : List UInt8}

/-! ### Buffers -/

/-- Each of the bytes from an address on, counted around the end of memory, is in a page that
permits an access. -/
def Grants (m : Memory) (access : Access) (a : Address) (length : Nat) : Prop :=
  ∀ i < length, m.permits access (a + BitVec.ofNat 64 i) = true

theorem WellFormed.check_eq_ok_iff (hm : m.WellFormed) :
    m.check access a length = .ok () ↔ m.Grants access a length :=
  hm.check_iff

theorem WellFormed.exists_check_eq_error (hm : m.WellFormed) (h : ¬m.Grants access a length) :
    ∃ fault, m.check access a length = .error fault := by
  cases hcheck : m.check access a length with
  | error fault => exact ⟨fault, rfl⟩
  | ok => exact absurd (hm.check_eq_ok_iff.mp hcheck) h

theorem bytes_eq_map (m : Memory) (a : Address) (count : Nat) :
    m.bytes a count = (addresses a count).map m.byte := by
  rw [bytes, addresses, List.map_map]
  rfl

theorem grants_iff_forall :
    m.Grants access a length ↔ ∀ b ∈ addresses a length, m.permits access b = true := by
  rw [Grants, addresses, List.forall_mem_map]
  simp only [List.mem_range]

theorem Grants.mono (h : m.Grants access a length) {count : Nat} (hcount : count ≤ length) :
    m.Grants access a count :=
  fun i hi ↦ h i (Nat.lt_of_lt_of_le hi hcount)

/-- Memory before and after bytes went to a buffer. -/
structure Receives (m : Memory) (a : Address) (bytes : List UInt8) (m' : Memory) : Prop where
  /-- The page table stays. -/
  space : m'.space = m.space
  /-- The byte at an address of the buffer is the one that went there, unless an address further on
  has the same cell. -/
  inside (i : Nat) (hi : i < bytes.length) :
    (∀ j, i < j → j < bytes.length →
      m.space.cell? (a.toNat + j) ≠ m.space.cell? (a.toNat + i)) →
    m'.byte (a + BitVec.ofNat 64 i) = bytes[i]
  /-- Cells that no address of the buffer has keep their bytes. -/
  outside (cell : FrameId × Nat) :
    (∀ i < bytes.length, m.space.cell? (a.toNat + i) ≠ some cell) →
    m'.frames.contents cell = m.frames.contents cell

theorem receives_store (h : m.check .write a bytes.length = .ok ()) :
    m.Receives a bytes (m.store a bytes) := by
  have hspace : (m.store a bytes).space = m.space := (m.stored_store a bytes).space
  refine ⟨hspace, fun i hi hlast ↦ ?_, fun cell hout ↦ ?_⟩
  · obtain ⟨hlt, p, hpage, -⟩ := page?_of_checkRange h hi
    have htoNat := a.toNat_add_ofNat hlt
    have hcell : m.space.cell? (a.toNat + i) = some (p.frame, (a.toNat + i) % pageSize) := by
      rw [Memory.page?, a.page_add_ofNat hlt] at hpage
      rw [AddressSpace.cell?, hpage]
      rfl
    have hbyte : (m.store a bytes).byte (a + BitVec.ofNat 64 i) =
        (m.store a bytes).frames.contents (p.frame, (a.toNat + i) % pageSize) :=
      byte_eq_contents _ (by rw [hspace, htoNat, hcell])
    rw [hbyte, contents_store, assign_spread_of_last _ hcell (Nat.le_add_right _ _)
      (Nat.add_lt_add_left hi _), Nat.add_sub_cancel_left, List.getD_eq_getElem?_getD,
      List.getElem?_eq_getElem hi]
    · rfl
    · intro j hj hsame
      by_contra hbehind
      exact hlast j (by omega) hj (hsame.trans hcell.symm)
  · rw [contents_store, assign_spread_of_ne _ hout]

end Memory

namespace Linux.Call

/-- The number of bytes that a transfer is asked for, as far as it goes. -/
def quota (count : Word) : Nat :=
  min count.toNat maxTransfer

variable {c : Caller} {descriptor : Word} {o : OpenObject}

/-! ### Descriptors -/

theorem ends_object (h : c.kernel.descriptors.get? descriptor = some o) :
    Ends (object descriptor) c o c := by
  rw [Ends, object, (ends_kernel c).run_bind, h]
  rfl

theorem run_object_of_eq_none (h : c.kernel.descriptors.get? descriptor = none) :
    (object descriptor).run.run c = (.error .ebadf, c) := by
  rw [object, (ends_kernel c).run_bind, h]
  rfl

/-- The object of a descriptor, if it passes a check. -/
theorem run_object_bind (c : Caller) (descriptor : Word) (p : OpenObject → Bool) :
    (do let o ← object descriptor
        if p o then return o else throw .ebadf : Call OpenObject).run.run c =
      match (c.kernel.descriptors.get? descriptor).filter p with
      | some o => (.ok o, c)
      | none => (.error .ebadf, c) := by
  cases hobject : c.kernel.descriptors.get? descriptor with
  | none =>
    rw [run_bind_of_error (run_object_of_eq_none hobject)]
    rfl
  | some o =>
    rw [(ends_object hobject).run_bind, Option.filter_some]
    cases p o <;> rfl

/-! ### Loads and stores -/

variable {a : Address} {length : Nat} {bytes : List UInt8} {fault : MemoryFault}

theorem ends_requireStorable (h : c.memory.check .write a length = .ok ()) :
    Ends (requireStorable a length) c () c := by
  rw [Ends, requireStorable, (ends_get c).run_bind, h]
  rfl

theorem run_requireStorable_of_error (h : c.memory.check .write a length = .error fault) :
    (requireStorable a length).run.run c = (.error .efault, c) := by
  rw [requireStorable, (ends_get c).run_bind, h]
  rfl

theorem ends_store (h : c.memory.check .write a bytes.length = .ok ()) :
    Ends (store a bytes) c () { c with memory := c.memory.store a bytes } := by
  rw [Ends, store, (ends_get c).run_bind, Memory.write_eq_ok.mpr ⟨h, rfl⟩]
  rfl

theorem ends_load (h : c.memory.check .read a length = .ok ()) :
    Ends (load a length) c (c.memory.bytes a length) c := by
  rw [Ends, load, (ends_get c).run_bind, Memory.read_eq_ok.mpr ⟨h, rfl⟩]
  rfl

theorem run_load_of_error (h : c.memory.check .read a length = .error fault) :
    (load a length).run.run c = (.error .efault, c) := by
  rw [load, (ends_get c).run_bind, Memory.read, h]
  rfl

/-! ### Bytes that are fetched -/

variable {α β : Type}

/-- A part of a call that needs the bytes at some addresses: it ends with a value if all of them can
be read, and fails if one cannot. Either way it changes nothing. -/
structure Fetches (x : Call α) (c : Caller) (needed : List Address) (v : α) : Prop where
  /-- With all of the bytes there is a value. -/
  ends : (∀ a ∈ needed, c.memory.permits .read a = true) → Ends x c v c
  /-- Without one of them there is none. -/
  fails : (∃ a ∈ needed, ¬c.memory.permits .read a = true) → x.run.run c = (.error .efault, c)

theorem fetches_pure (c : Caller) (v : α) : Fetches (pure v) c [] v :=
  ⟨fun _ ↦ rfl, fun ⟨_, ha, _⟩ ↦ absurd ha List.not_mem_nil⟩

theorem Fetches.bind {x : Call α} {f : α → Call β} {first second : List Address} {v : α} {w : β}
    (hx : Fetches x c first v) (hf : Fetches (f v) c second w) :
    Fetches (x >>= f) c (first ++ second) w := by
  constructor
  · intro h
    rw [List.forall_mem_append] at h
    exact ends_bind_iff.mpr ⟨v, c, hx.ends h.1, hf.ends h.2⟩
  · rintro ⟨a, ha, hdenied⟩
    by_cases hfirst : ∃ a ∈ first, ¬c.memory.permits .read a = true
    · exact run_bind_of_error (hx.fails hfirst)
    · have hends := hx.ends fun b hb ↦ by
        by_contra hnot
        exact hfirst ⟨b, hb, hnot⟩
      have hsecond : a ∈ second := (List.mem_append.mp ha).resolve_left fun hin ↦
        hfirst ⟨a, hin, hdenied⟩
      rw [hends.run_bind]
      exact hf.fails ⟨a, hsecond, hdenied⟩

/-- It does not matter in which order addresses are needed. -/
theorem Fetches.congr {x : Call α} {needed needed' : List Address} {v : α}
    (h : Fetches x c needed v) (hmem : ∀ a, a ∈ needed ↔ a ∈ needed') : Fetches x c needed' v :=
  ⟨fun hall ↦ h.ends fun a ha ↦ hall a ((hmem a).mp ha),
    fun ⟨a, ha, hdenied⟩ ↦ h.fails ⟨a, (hmem a).mpr ha, hdenied⟩⟩

theorem fetches_load (hm : c.memory.WellFormed) (a : Address) (length : Nat) :
    Fetches (load a length) c (addresses a length) ((addresses a length).map c.memory.byte) := by
  rw [← Memory.bytes_eq_map]
  constructor
  · intro h
    exact ends_load (hm.check_eq_ok_iff.mpr (Memory.grants_iff_forall.mpr h))
  · rintro ⟨b, hb, hdenied⟩
    have hnot : ¬c.memory.Grants .read a length := fun hgrants ↦
      hdenied (Memory.grants_iff_forall.mp hgrants b hb)
    obtain ⟨fault, hfault⟩ := hm.exists_check_eq_error hnot
    exact run_load_of_error hfault

theorem fetches_loadWord (hm : c.memory.WellFormed) (a : Address) :
    Fetches (loadWord a) c (addresses a 8) (c.memory.word a 8) := by
  have hload := (fetches_load hm a 8).bind (f := fun bytes ↦
    (pure (BitVec.ofNat 64 (LittleEndian.toNat bytes)) : Call Word)) (fetches_pure c _)
  rw [List.append_nil, ← Memory.bytes_eq_map] at hload
  exact hload

end Linux.Call

end LongMode
