import LongMode.Proofs.Machine.LockPrefix
import LongMode.Proofs.Machine.Moves

/-!
Stores of the accumulator to strings and loads from strings into it. A repeated one stands for as
many single ones as the counter says, each of which counts down (`stringEach`). It does the work in
another way: a store fills its range from below in chunks, whatever the direction, and a load takes
only the last element. `string_eq_stringEach` says that the two leave the same registers and bytes
where each address permits the access, also if a frame is behind several of them, and that a
repeated one is refused as a whole everywhere else.
-/

set_option autoImplicit false
set_option relaxedAutoImplicit false

namespace LongMode

/-- What a store to strings or a load from them asks of memory, and of which element first. -/
def StringOp.reach? (op : StringOp) (i : Instruction) (r : RegisterFile) :
    Option (Access × Address) :=
  match op with
  | .stos => some (.write, r.get Register.rdi)
  | .lods => some (.read, i.sourceStart r)
  | _ => none

namespace Exec

/-- `count` instructions without a repeat prefix; after each of them the counter goes down by
one. -/
def stringEach (op : StringOp) (w : Width) (i : Instruction) : (count : Nat) → Exec Unit
  | 0 => pure ()
  | count + 1 => do
    stringEach op w i count
    string op w i.single
    setGeneral Register.rcx ((← general Register.rcx) - 1)

/-- Each address of `count` elements permits an access. -/
def Grants (m : Memory) (access : Access) (first : Address) (back : Bool) (w : Width)
    (count : Nat) : Prop :=
  ∀ k < count, ∀ j < w.bytes,
    m.permits access (element first back w k + BitVec.ofNat 64 j) = true

instance (m : Memory) (access : Access) (first : Address) (back : Bool) (w : Width)
    (count : Nat) : Decidable (Grants m access first back w count) :=
  inferInstanceAs (Decidable (∀ k < count, ∀ j < w.bytes, _ = true))

/-! ### Elements and ranges -/

theorem rank_rank {back : Bool} {count k : Nat} (hk : k < count) :
    rank back count (rank back count k) = k := by
  cases back with
  | false => rfl
  | true =>
    simp only [rank, if_true]
    omega

/-- Elements permit an access just if the range that they make up is not refused. -/
theorem grants_iff_check {m : Memory} (hm : m.WellFormed) {access : Access} {first : Address}
    {back : Bool} {w : Width} {count : Nat} :
    Grants m access first back w count ↔
      m.check access (lowest first back w count) (count * w.bytes) = .ok () := by
  rw [hm.check_iff]
  constructor
  · intro h i hi
    have hpos : 0 < w.bytes := by cases w <;> decide
    have hk : i / w.bytes < count := (Nat.div_lt_iff_lt_mul hpos).mpr hi
    have hgrant := h (rank back count (i / w.bytes)) (rank_lt hk) _ (Nat.mod_lt i hpos)
    rw [element_eq_lowest_add first back w (rank_lt hk), rank_rank hk, BitVec.add_assoc,
      ← BitVec.ofNat_add, Nat.div_add_mod'] at hgrant
    exact hgrant
  · intro h k hk j hj
    have hfit : (rank back count k + 1) * w.bytes ≤ count * w.bytes :=
      Nat.mul_le_mul_right _ (rank_lt hk)
    rw [Nat.succ_mul] at hfit
    rw [element_eq_lowest_add first back w hk, BitVec.add_assoc, ← BitVec.ofNat_add]
    exact h _ (by omega)

/-- The element that comes after others. -/
theorem element_one_element (a : Address) (back : Bool) (w : Width) (count : Nat) :
    element (element a back w count) back w 1 = element a back w (count + 1) := by
  simp only [element, Nat.succ_mul, Nat.zero_mul, Nat.zero_add, BitVec.ofNat_add]
  cases back with
  | false => grind
  | true => grind

theorem lowest_eq_element (first : Address) (back : Bool) (w : Width) (count : Nat) :
    lowest first back w count = element first back w (if back then count - 1 else 0) := by
  cases back with
  | false => exact (element_zero first false w).symm
  | true => simp only [lowest, element, if_true, Nat.sub_mul, Nat.one_mul]

/-- The length of an element divides 2^64, so that elements are in step also around the end. -/
theorem toNat_element_mod (first : Address) (back : Bool) (w : Width) (k : Nat) :
    (element first back w k).toNat % w.bytes = first.toNat % w.bytes := by
  have hdvd : w.bytes ∣ 2 ^ 64 := by cases w <;> decide
  cases back with
  | false =>
    change (first + BitVec.ofNat 64 (k * w.bytes)).toNat % w.bytes = _
    rw [BitVec.toNat_add, BitVec.toNat_ofNat, Nat.add_mod_mod, Nat.mod_mod_of_dvd _ hdvd,
      Nat.add_mul_mod_self_right]
  | true =>
    have hback : element first true w k + BitVec.ofNat 64 (k * w.bytes) = first :=
      BitVec.sub_add_cancel _ _
    have hsum := congrArg (·.toNat % w.bytes) hback
    simp only [BitVec.toNat_add, BitVec.toNat_ofNat, Nat.add_mod_mod, Nat.mod_mod_of_dvd _ hdvd,
      Nat.add_mul_mod_self_right] at hsum
    exact hsum

/-- Elements that were filled one after the other, and one more. -/
theorem filled_succ {bytes : List UInt8} {start : Nat} {m m' m'' : Memory} {first : Address}
    {back : Bool} {w : Width} {count : Nat}
    (hend : (lowest first back w (count + 1)).toNat + (count + 1) * w.bytes < addressLimit)
    (h : m.Filled bytes start (lowest first back w count).toNat (count * w.bytes) m')
    (h' : m'.Filled bytes start (element first back w count).toNat w.bytes m'') :
    m.Filled bytes start (lowest first back w (count + 1)).toNat ((count + 1) * w.bytes) m'' := by
  rw [Nat.succ_mul] at hend ⊢
  cases back with
  | false =>
    have hfirst : first.toNat + count * w.bytes < addressLimit :=
      Nat.lt_of_le_of_lt (Nat.add_le_add_left (Nat.le_add_right _ _) _) hend
    have hlast : (element first false w count).toNat = first.toNat + count * w.bytes :=
      Address.toNat_add_ofNat first hfirst
    rw [hlast] at h'
    exact h.trans h'
  | true =>
    rw [lowest_eq_element] at hend ⊢
    rw [Nat.add_comm (count * w.bytes)] at hend ⊢
    cases count with
    | zero =>
      rw [Nat.zero_mul] at h ⊢
      exact h.of_empty.trans_back h'
    | succ k =>
      have hnext : element first true w k =
          element first true w (k + 1) + BitVec.ofNat 64 w.bytes := by
        rw [← element_one_element first true w k, element_one]
        exact (BitVec.sub_add_cancel _ _).symm
      have hlower : (element first true w k).toNat =
          (element first true w (k + 1)).toNat + w.bytes := by
        rw [hnext]
        exact Address.toNat_add_ofNat _ (Nat.lt_of_le_of_lt (by
          rw [← Nat.add_assoc]
          exact Nat.le_add_right _ _) hend)
      rw [lowest_eq_element, if_pos rfl, Nat.add_sub_cancel, hlower] at h
      exact h.trans_back h'

/-! ### Stores -/

/-- A range that is filled in chunks. -/
theorem exec_fillChunks {bytes : List UInt8} {start : Nat} (hdvd : bytes.length ∣ pageSize)
    (count : Nat) (dst : Address) (length : Nat) (m : Machine)
    (hphase : dst.toNat % bytes.length = start % bytes.length)
    (hwhole : bytes.length ∣ length) (hlength : length ≤ count * chunkSize)
    (hend : dst.toNat + length < addressLimit)
    (hwrite : m.memory.check .write dst length = .ok ()) :
    ∃ memory writes, (fillChunks bytes count dst length).exec m =
        (.ok (), { m with memory, writes }) ∧
      m.memory.Filled bytes start dst.toNat length memory := by
  induction count generalizing dst length m with
  | zero =>
    rw [Nat.zero_mul, Nat.le_zero] at hlength
    subst hlength
    exact ⟨m.memory, m.writes, rfl, .refl⟩
  | succ count ih =>
    rw [Nat.succ_mul] at hlength
    obtain ⟨now, hnow⟩ : ∃ now, now = min length chunkSize := ⟨_, rfl⟩
    obtain ⟨rest, rfl⟩ : ∃ rest, length = now + rest := ⟨length - now, by omega⟩
    have hchunk : bytes.length ∣ chunkSize := Nat.dvd_trans hdvd ⟨16, rfl⟩
    have hnowWhole : bytes.length ∣ now := by
      rw [hnow, Nat.min_def]
      split
      · exact hwhole
      · exact hchunk
    have hcopies : now / bytes.length * bytes.length = now := Nat.div_mul_cancel hnowWhole
    have hfilled := m.memory.filled_store (now / bytes.length) hdvd hphase
    rw [hcopies] at hfilled
    have hdst : (dst + BitVec.ofNat 64 now).toNat = dst.toNat + now :=
      Address.toNat_add_ofNat dst (by omega)
    have hphase' : (dst + BitVec.ofNat 64 now).toNat % bytes.length = start % bytes.length := by
      rw [hdst, ← hphase, Nat.add_mod, Nat.mod_eq_zero_of_dvd hnowWhole, Nat.add_zero, Nat.mod_mod]
    obtain ⟨hstore, hwrite'⟩ := check_chunk hwrite (Nat.le_add_right now rest)
    rw [Nat.add_sub_cancel_left] at hwrite'
    have hstored : (List.replicate (now / bytes.length) bytes).flatten.length = now := by
      rw [length_flatten_replicate, hcopies]
    obtain ⟨memory, writes, hrest, hfilled'⟩ := ih (dst + BitVec.ofNat 64 now) rest
      { m with
        memory := m.memory.store dst (List.replicate (now / bytes.length) bytes).flatten
        writes := m.writes.push ⟨dst, (List.replicate (now / bytes.length) bytes).flatten⟩ }
      hphase' ((Nat.dvd_add_right hnowWhole).mp hwhole) (by omega) (by omega)
      ((Memory.check_congr hfilled.space _ _ _).trans hwrite')
    rw [hdst] at hfilled'
    refine ⟨memory, writes, ?_, hfilled.trans hfilled'⟩
    rw [fillChunks, ← hnow, exec_bind_of_ok (exec_storeBytes (by rw [hstored]; exact hstore)),
      Nat.add_sub_cancel_left]
    exact hrest

/-- The registers after `count` elements: a string register is past them, and the counter went
down. -/
def walked (r : RegisterFile) (index : Fin 16) (back : Bool) (w : Width) (count : Nat) :
    RegisterFile :=
  (r.set index (element (r.get index) back w count)).set Register.rcx
    (r.get Register.rcx - BitVec.ofNat 64 count)

theorem get_walked (r : RegisterFile) (index : Fin 16) (back : Bool) (w : Width) (count : Nat)
    (i : Fin 16) : (walked r index back w count).get i =
      if Register.rcx = i then r.get Register.rcx - BitVec.ofNat 64 count
      else if index = i then element (r.get index) back w count
      else r.get i := by
  rw [walked, RegisterFile.get_set, RegisterFile.get_set]

theorem walked_zero (r : RegisterFile) (index : Fin 16) (back : Bool) (w : Width) :
    walked r index back w 0 = r := by
  refine RegisterFile.eq_of_get (fun i ↦ ?_) rfl
  rw [get_walked]
  split_ifs with hrcx hindex
  · rw [← hrcx]
    exact BitVec.sub_zero _
  · rw [← hindex, element_zero]
  · rfl

/-- One element after others. -/
theorem walked_succ (r : RegisterFile) {index : Fin 16} (hindex : index ≠ Register.rcx)
    (back : Bool) (w : Width) (count : Nat) :
    ((walked r index back w count).set index
      (element ((walked r index back w count).get index) back w 1)).set Register.rcx
        ((walked r index back w count).get Register.rcx - 1) =
      walked r index back w (count + 1) := by
  have hget : (walked r index back w count).get index =
      element (r.get index) back w count := by
    rw [get_walked, if_neg hindex.symm, if_pos rfl]
  have hrcx : (walked r index back w count).get Register.rcx =
      r.get Register.rcx - BitVec.ofNat 64 count := by
    rw [get_walked, if_pos rfl]
  refine RegisterFile.eq_of_get (fun i ↦ ?_) rfl
  rw [RegisterFile.get_set, RegisterFile.get_set, hget, hrcx, element_one_element, get_walked,
    get_walked]
  split_ifs
  · rw [BitVec.ofNat_add]
    grind
  · rfl
  · rfl

section Stores

variable {w : Width} {i : Instruction} {m : Machine}

/-- The bytes that a store of the accumulator puts in an element. -/
def stored (r : RegisterFile) (w : Width) : List UInt8 :=
  LittleEndian.ofNat w.bytes ((r.get Register.rax).setWidth w.bits).toNat

theorem length_stored (r : RegisterFile) (w : Width) : (stored r w).length = w.bytes :=
  LittleEndian.length_ofNat _ _

theorem length_stored_dvd (r : RegisterFile) (w : Width) : (stored r w).length ∣ pageSize := by
  rw [length_stored]
  cases w with
  | byte => exact ⟨4096, rfl⟩
  | word => exact ⟨2048, rfl⟩
  | dword => exact ⟨1024, rfl⟩
  | qword => exact ⟨512, rfl⟩

theorem stored_walked (r : RegisterFile) (back : Bool) (w : Width) (count : Nat) :
    stored (walked r Register.rdi back w count) w = stored r w := by
  rw [stored, stored, get_walked]
  rfl

/-- The machine after one element was stored. -/
theorem exec_stos_single (hwide : i.narrowAddress = false)
    (hwrite : m.memory.check .write (m.registers.get Register.rdi) w.bytes = .ok ()) :
    (string .stos w i.single).exec m = (.ok (), { m with
      registers := m.registers.set Register.rdi
        (element (m.registers.get Register.rdi) (walksBack m) w 1)
      memory := m.memory.store (m.registers.get Register.rdi) (stored m.registers w)
      writes := m.writes.push ⟨m.registers.get Register.rdi, stored m.registers w⟩ }) := by
  have hwide' : i.single.narrowAddress = false := hwide
  have hcheck : m.memory.check .write (m.registers.get Register.rdi)
      (stored m.registers w).length = .ok () := by
    rw [length_stored]
    exact hwrite
  rw [string, storeString, exec_bind_of_ok (exec_requireWideAddress hwide' m),
    exec_bind_of_ok (exec_generalLow _ w m), exec_bind_of_ok (exec_general _ m)]
  exact exec_bind_of_ok (exec_storeBytes hcheck) _

/-- The machine after elements were stored one after the other. -/
theorem exec_stosEach (hm : m.memory.WellFormed) (hwide : i.narrowAddress = false) {count : Nat}
    (hgrants : Grants m.memory .write (m.registers.get Register.rdi) (walksBack m) w count) :
    ∃ memory writes, (stringEach .stos w i count).exec m = (.ok (), { m with
        registers := walked m.registers Register.rdi (walksBack m) w count, memory, writes }) ∧
      m.memory.Filled (stored m.registers w) (m.registers.get Register.rdi).toNat
        (lowest (m.registers.get Register.rdi) (walksBack m) w count).toNat (count * w.bytes)
        memory := by
  induction count with
  | zero =>
    rw [walked_zero, Nat.zero_mul]
    exact ⟨m.memory, m.writes, rfl, .refl⟩
  | succ count ih =>
    obtain ⟨memory, writes, hexec, hfilled⟩ := ih fun k hk ↦ hgrants k (Nat.lt_succ_of_lt hk)
    have hcheck := (grants_iff_check hm).mp hgrants
    have hbytes : 0 < w.bytes := by cases w <;> decide
    have hend := hm.lt_of_check hcheck (Nat.mul_pos (Nat.succ_pos count) hbytes)
    have hrdi : (walked m.registers Register.rdi (walksBack m) w count).get Register.rdi =
        element (m.registers.get Register.rdi) (walksBack m) w count := get_walked ..
    have hwrite : memory.check .write
        (element (m.registers.get Register.rdi) (walksBack m) w count) w.bytes = .ok () :=
      (Memory.check_congr hfilled.space _ _ _).trans
        (check_of_checkSpan hcheck (Nat.lt_succ_self count))
    have hphase : (element (m.registers.get Register.rdi) (walksBack m) w count).toNat %
        (stored m.registers w).length =
          (m.registers.get Register.rdi).toNat % (stored m.registers w).length := by
      rw [length_stored, toNat_element_mod]
    have hlast := memory.filled_store_one (length_stored_dvd m.registers w) hphase
    rw [length_stored] at hlast
    rw [← hrdi] at hwrite
    have hone := exec_stos_single hwide (m := { m with
      registers := walked m.registers Register.rdi (walksBack m) w count, memory, writes }) hwrite
    simp only [stored_walked, hrdi] at hone
    have hrcx (r : RegisterFile) (value : BitVec 64) :
        (r.set Register.rdi value).get Register.rcx = r.get Register.rcx :=
      RegisterFile.get_set r _ _ _
    refine ⟨_, writes.push ⟨element (m.registers.get Register.rdi) (walksBack m) w count,
      stored m.registers w⟩, ?_, filled_succ hend hfilled hlast⟩
    rw [stringEach, exec_bind_of_ok hexec, exec_bind_of_ok hone,
      exec_bind_of_ok (exec_general _ _), exec_setGeneral, hrcx,
      ← walked_succ m.registers (by decide) (walksBack m) w count, hrdi]
    rfl

theorem exec_counter (m : Machine) : counter.exec m = (.ok (remaining m), m) := rfl

theorem sub_remaining (m : Machine) :
    m.registers.get Register.rcx - BitVec.ofNat 64 (remaining m) = 0 := by
  rw [remaining, BitVec.ofNat_toNat, BitVec.setWidth_eq, BitVec.sub_self]
  rfl

/-- The machine after a repeated store. -/
theorem exec_stos_repeated (hwide : i.narrowAddress = false)
    (hrepeated : i.prefixes.repetition.isSome) (hpos : remaining m ≠ 0)
    (hend : (lowest (m.registers.get Register.rdi) (walksBack m) w (remaining m)).toNat +
      remaining m * w.bytes < addressLimit)
    (hwrite : m.memory.check .write
      (lowest (m.registers.get Register.rdi) (walksBack m) w (remaining m))
      (remaining m * w.bytes) = .ok ()) :
    ∃ memory writes, (string .stos w i).exec m = (.ok (), { m with
        registers := walked m.registers Register.rdi (walksBack m) w (remaining m)
        memory, writes }) ∧
      m.memory.Filled (stored m.registers w) (m.registers.get Register.rdi).toNat
        (lowest (m.registers.get Register.rdi) (walksBack m) w (remaining m)).toNat
        (remaining m * w.bytes) memory := by
  have hnone := Option.isNone_eq_false_iff.mpr hrepeated
  have hphase : (lowest (m.registers.get Register.rdi) (walksBack m) w (remaining m)).toNat %
      (stored m.registers w).length =
      (m.registers.get Register.rdi).toNat % (stored m.registers w).length := by
    rw [length_stored, lowest_eq_element, toNat_element_mod]
  obtain ⟨memory, writes, hfill, hfilled⟩ := exec_fillChunks (length_stored_dvd m.registers w)
    (chunksIn (remaining m * w.bytes)) _ _ m hphase
    (by rw [length_stored]; exact Nat.dvd_mul_left _ _) (length_le_chunksIn _) hend hwrite
  refine ⟨memory, writes, ?_, hfilled⟩
  rw [string, storeString, exec_bind_of_ok (exec_requireWideAddress hwide m),
    exec_bind_of_ok (exec_generalLow _ w m), exec_bind_of_ok (exec_general _ m), hnone,
    if_neg Bool.false_ne_true, exec_bind_of_ok (exec_counter m), if_pos hpos,
    exec_bind_of_ok (exec_span _ m (Nat.lt_of_le_of_lt (Nat.le_add_left _ _) hend))]
  simp only
  rw [exec_bind_of_ok (exec_check hwrite), walked, sub_remaining]
  exact exec_bind_of_ok hfill _

end Stores

/-! ### Loads -/

section Loads

variable {w : Width} {i : Instruction} {m : Machine}

/-- A register after the values of `count` elements were written to its low part. -/
def kept (old : BitVec 64) (w : Width) (value : Nat → BitVec w.bits) : (count : Nat) → BitVec 64
  | 0 => old
  | k + 1 => RegisterFile.mergePart old ((value k).setWidth 64) 0 w

theorem kept_succ (old : BitVec 64) (w : Width) (value : Nat → BitVec w.bits) (count : Nat) :
    RegisterFile.mergePart (kept old w value count) ((value count).setWidth 64) 0 w =
      kept old w value (count + 1) := by
  cases count with
  | zero => rfl
  | succ k => exact RegisterFile.mergePart_mergePart _ _ _ w

/-- The registers after `count` elements were loaded, each of which has its value. -/
def loaded (r : RegisterFile) (back : Bool) (w : Width) (value : Nat → BitVec w.bits)
    (count : Nat) : RegisterFile :=
  (walked r Register.rsi back w count).set Register.rax
    (kept (r.get Register.rax) w value count)

section Loaded

variable (r : RegisterFile) (back : Bool) (w : Width) (value : Nat → BitVec w.bits) (count : Nat)

theorem get_loaded (i : Fin 16) :
    (loaded r back w value count).get i =
      if Register.rax = i then kept (r.get Register.rax) w value count
      else (walked r Register.rsi back w count).get i := by
  rw [loaded, RegisterFile.get_set]

theorem rax_loaded : (loaded r back w value count).get Register.rax =
    kept (r.get Register.rax) w value count := get_loaded r back w value count _

theorem rsi_loaded : (loaded r back w value count).get Register.rsi =
    element (r.get Register.rsi) back w count :=
  (get_loaded r back w value count _).trans (get_walked ..)

theorem rcx_loaded : (loaded r back w value count).get Register.rcx =
    r.get Register.rcx - BitVec.ofNat 64 count :=
  (get_loaded r back w value count _).trans (get_walked ..)

theorem loaded_zero : loaded r back w value 0 = r := by
  refine RegisterFile.eq_of_get (fun i ↦ ?_) rfl
  rw [get_loaded, walked_zero]
  split_ifs with hrax
  · rw [← hrax]
    rfl
  · rfl

/-- One element after others. -/
theorem loaded_succ :
    (((loaded r back w value count).setLow Register.rax w ((value count).setWidth 64)).set
        Register.rsi (element ((loaded r back w value count).get Register.rsi) back w 1)).set
          Register.rcx ((loaded r back w value count).get Register.rcx - 1) =
      loaded r back w value (count + 1) := by
  refine RegisterFile.eq_of_get (fun i ↦ ?_) rfl
  rw [RegisterFile.get_set, RegisterFile.get_set, RegisterFile.get_setLow, rax_loaded, rsi_loaded,
    rcx_loaded, kept_succ, element_one_element, get_loaded, get_loaded, get_walked, get_walked]
  by_cases hrcx : Register.rcx = i
  · subst hrcx
    rw [if_pos rfl, if_neg (by decide), if_pos rfl, BitVec.ofNat_add]
    grind
  · rw [if_neg hrcx, if_neg hrcx, if_neg hrcx]
    by_cases hrsi : Register.rsi = i
    · subst hrsi
      rfl
    · rw [if_neg hrsi, if_neg hrsi, if_neg hrsi]
      split_ifs
      · rfl
      · rfl

/-- Of all values only the last one shows. -/
theorem loaded_eq (hcount : count ≠ 0) : loaded r back w value count =
    ((r.setLow Register.rax w ((value (count - 1)).setWidth 64)).set Register.rsi
      (element (r.get Register.rsi) back w count)).set Register.rcx
        (r.get Register.rcx - BitVec.ofNat 64 count) := by
  obtain ⟨k, rfl⟩ := Nat.exists_eq_succ_of_ne_zero hcount
  refine RegisterFile.eq_of_get (fun i ↦ ?_) rfl
  rw [get_loaded, get_walked, RegisterFile.get_set, RegisterFile.get_set, RegisterFile.get_setLow]
  by_cases hrax : Register.rax = i
  · subst hrax
    rfl
  · rw [if_neg hrax, if_neg hrax]

/-- The source is displaced by the elements that were loaded. -/
theorem sourceStart_loaded (i : Instruction) :
    i.sourceStart (loaded r back w value count) = element (i.sourceStart r) back w count := by
  rw [Instruction.sourceStart, Instruction.sourceStart, rsi_loaded, ← element_add]
  rfl

end Loaded

/-- The last one of some elements. -/
theorem last_eq_element (first : Address) (back : Bool) (w : Width) (count : Nat) :
    (if back then lowest first back w count
      else lowest first back w count + BitVec.ofNat 64 (count * w.bytes - w.bytes)) =
      element first back w (count - 1) := by
  cases back with
  | false => simp only [lowest, element, Bool.false_eq_true, if_false, Nat.sub_mul, Nat.one_mul]
  | true => exact lowest_eq_element first true w count

theorem exec_setGeneralLow (index : Fin 16) (w : Width) (value : BitVec w.bits) (m : Machine) :
    (setGeneralLow index w value).exec m =
      (.ok (), { m with registers := m.registers.setLow index w (value.setWidth 64) }) := rfl

/-- The machine after one element was loaded. -/
theorem exec_lods_single (hwide : i.narrowAddress = false)
    (hread : m.memory.check .read (i.sourceStart m.registers) w.bytes = .ok ()) :
    (string .lods w i.single).exec m = (.ok (), { m with
      registers := (m.registers.setLow Register.rax w
        ((m.memory.word (i.sourceStart m.registers) w.bytes).setWidth 64)).set Register.rsi
          (element (m.registers.get Register.rsi) (walksBack m) w 1) }) := by
  have hwide' : i.single.narrowAddress = false := hwide
  have hfit : 1 * w.bytes < addressLimit := by cases w <;> decide
  have hlowest : lowest (i.sourceStart m.registers) (walksBack m) w 1 =
      i.sourceStart m.registers := by
    rw [lowest_eq_element, Nat.sub_self, ite_self, element_zero]
  have hlast := last_eq_element (i.sourceStart m.registers) (walksBack m) w 1
  rw [Nat.sub_self, element_zero, hlowest] at hlast
  have hcheck : m.memory.check .read (i.sourceStart m.registers) (1 * w.bytes) = .ok () := by
    rw [Nat.one_mul]
    exact hread
  rw [string, loadString, exec_bind_of_ok (exec_requireWideAddress hwide' m),
    exec_bind_of_ok (exec_sourceAddress i.single m)]
  change (span (i.sourceStart m.registers) 1 w >>= _).exec m = _
  rw [exec_bind_of_ok (exec_span _ m hfit), hlowest]
  simp only
  have hrsi (value : BitVec 64) : (m.registers.setLow Register.rax w value).get Register.rsi =
      m.registers.get Register.rsi := RegisterFile.get_setLow ..
  have hnone : ¬i.single.prefixes.repetition.isSome = true := Bool.false_ne_true
  rw [exec_bind_of_ok (exec_check hcheck), exec_bind_of_ok (exec_backwards m), hlast,
    exec_bind_of_ok (exec_load hread), exec_bind_of_ok (exec_setGeneralLow ..),
    exec_bind_of_ok (exec_advance ..), if_neg hnone, hrsi]
  rfl

/-- The value of a source element. -/
def sourceValue (i : Instruction) (w : Width) (m : Machine) (k : Nat) : BitVec w.bits :=
  m.memory.word (element (i.sourceStart m.registers) (walksBack m) w k) w.bytes

/-- The machine after elements were loaded one after the other. -/
theorem exec_lodsEach (hwide : i.narrowAddress = false) {count : Nat}
    (hread : ∀ k < count, m.memory.check .read
      (element (i.sourceStart m.registers) (walksBack m) w k) w.bytes = .ok ()) :
    (stringEach .lods w i count).exec m = (.ok (), { m with
      registers := loaded m.registers (walksBack m) w (sourceValue i w m) count }) := by
  induction count with
  | zero =>
    rw [loaded_zero]
    rfl
  | succ count ih =>
    have hexec := ih fun k hk ↦ hread k (Nat.lt_succ_of_lt hk)
    have hsource := sourceStart_loaded m.registers (walksBack m) w (sourceValue i w m) count i
    have hlast := hread count (Nat.lt_succ_self count)
    rw [← hsource] at hlast
    have hone := exec_lods_single hwide (m := { m with
      registers := loaded m.registers (walksBack m) w (sourceValue i w m) count }) hlast
    have hrcx (r : RegisterFile) (value : BitVec 64) :
        (r.set Register.rsi value).get Register.rcx = r.get Register.rcx :=
      RegisterFile.get_set ..
    have hrcx' (r : RegisterFile) (value : BitVec 64) :
        (r.setLow Register.rax w value).get Register.rcx = r.get Register.rcx :=
      RegisterFile.get_setLow ..
    rw [stringEach, exec_bind_of_ok hexec, exec_bind_of_ok hone,
      exec_bind_of_ok (exec_general _ _), exec_setGeneral, ← loaded_succ, hrcx, hrcx', hsource]
    rfl

/-- The machine after a repeated load. -/
theorem exec_lods_repeated (hwide : i.narrowAddress = false)
    (hrepeated : i.prefixes.repetition.isSome) (hpos : remaining m ≠ 0)
    (htotal : remaining m * w.bytes < addressLimit)
    (hread : m.memory.check .read (lowest (i.sourceStart m.registers) (walksBack m) w (remaining m))
      (remaining m * w.bytes) = .ok ()) :
    (string .lods w i).exec m = (.ok (), { m with
      registers := loaded m.registers (walksBack m) w (sourceValue i w m) (remaining m) }) := by
  have hlast : m.memory.check .read
      (element (i.sourceStart m.registers) (walksBack m) w (remaining m - 1)) w.bytes = .ok () :=
    check_of_checkSpan hread (Nat.sub_lt (Nat.pos_of_ne_zero hpos) Nat.one_pos)
  have hrsi (value : BitVec 64) : (m.registers.setLow Register.rax w value).get Register.rsi =
      m.registers.get Register.rsi := RegisterFile.get_setLow ..
  rw [string, loadString, exec_bind_of_ok (exec_requireWideAddress hwide m),
    exec_bind_of_ok (exec_sourceAddress i m)]
  simp only
  rw [if_pos hrepeated, exec_bind_of_ok (exec_counter m), if_pos hpos,
    exec_bind_of_ok (exec_span _ m htotal)]
  simp only
  rw [exec_bind_of_ok (exec_check hread), exec_bind_of_ok (exec_backwards m), last_eq_element,
    exec_bind_of_ok (exec_load hlast), exec_bind_of_ok (exec_setGeneralLow ..),
    exec_bind_of_ok (exec_advance ..), if_pos hrepeated, hrsi, exec_setGeneral,
    loaded_eq _ _ _ _ _ hpos, sub_remaining]
  rfl

end Loads

/-! ### A repeated instruction and single ones -/

section Refusals

variable {α : Type} {op : StringOp} {access : Access} {first : Address} {w : Width}
  {i : Instruction} {m : Machine}

/-- A range that is too long for a number of 64 bits, or is refused. -/
theorem exec_span_check_of_refused {count : Nat} {k : Address × Nat → Exec α}
    (h : count * w.bytes < addressLimit →
      m.memory.check access (lowest first (walksBack m) w count) (count * w.bytes) ≠ .ok ()) :
    ∃ e, (span first count w >>= fun range ↦ check access range.1 range.2 >>= fun _ ↦ k range).exec
      m = (.error (.fault (.memory e)), m) := by
  by_cases hlong : addressLimit ≤ count * w.bytes
  · exact ⟨_, exec_bind_of_error (exec_span_of_le first m hlong) _⟩
  · have hfit := Nat.lt_of_not_le hlong
    rw [exec_bind_of_ok (exec_span first m hfit)]
    cases hcheck : m.memory.check access (lowest first (walksBack m) w count)
      (count * w.bytes) with
    | error e => exact ⟨e, exec_bind_of_error (exec_check_of_error hcheck) _⟩
    | ok => exact absurd hcheck (h hfit)

/-- A repeated store or load is refused before it changes anything. -/
theorem exec_string_of_refused (hwide : i.narrowAddress = false)
    (hrepeated : i.prefixes.repetition.isSome)
    (hreach : op.reach? i m.registers = some (access, first)) (hpos : remaining m ≠ 0)
    (h : remaining m * w.bytes < addressLimit → m.memory.check access
      (lowest first (walksBack m) w (remaining m)) (remaining m * w.bytes) ≠ .ok ()) :
    ∃ e, (string op w i).exec m = (.error (.fault (.memory e)), m) := by
  cases op with
  | stos =>
    obtain ⟨rfl, rfl⟩ := Prod.mk.inj (Option.some.inj hreach)
    have hnone := Option.isNone_eq_false_iff.mpr hrepeated
    rw [string, storeString, exec_bind_of_ok (exec_requireWideAddress hwide m),
      exec_bind_of_ok (exec_generalLow _ w m), exec_bind_of_ok (exec_general _ m), hnone,
      if_neg Bool.false_ne_true, exec_bind_of_ok (exec_counter m), if_pos hpos]
    exact exec_span_check_of_refused h
  | lods =>
    obtain ⟨rfl, rfl⟩ := Prod.mk.inj (Option.some.inj hreach)
    rw [string, loadString, exec_bind_of_ok (exec_requireWideAddress hwide m),
      exec_bind_of_ok (exec_sourceAddress i m)]
    simp only
    rw [if_pos hrepeated, exec_bind_of_ok (exec_counter m), if_pos hpos]
    exact exec_span_check_of_refused h
  | _ => cases hreach

/-- Stores and loads with narrow addresses are refused. -/
theorem exec_reach_of_narrow (w : Width)
    (hreach : op.reach? i m.registers = some (access, first)) (hnarrow : i.narrowAddress = true)
    (m' : Machine) : (string op w i).exec m' = (.error (.fault (.decode .unsupported)), m') := by
  have hrefused : (requireWideAddress i).exec m' =
      (.error (.fault (.decode .unsupported)), m') := by
    rw [requireWideAddress, hnarrow]
    rfl
  cases op with
  | stos => exact exec_bind_of_error hrefused _
  | lods => exact exec_bind_of_error hrefused _
  | _ => cases hreach

theorem machine_stringEach_of_narrow (w : Width)
    (hreach : op.reach? i m.registers = some (access, first)) (hnarrow : i.narrowAddress = true)
    (count : Nat) : ((stringEach op w i count).exec m).2 = m := by
  have hreach' : op.reach? i.single m.registers = some (access, first) := hreach
  induction count with
  | zero => rfl
  | succ count ih =>
    rw [stringEach]
    cases hexec : (stringEach op w i count).exec m with
    | mk result m' =>
      rw [hexec] at ih
      obtain rfl : m' = m := ih
      cases result with
      | error e => rw [exec_bind_of_error hexec]
      | ok v =>
        rw [exec_bind_of_ok hexec,
          exec_bind_of_error (exec_reach_of_narrow w hreach' hnarrow m')]

/-- A repeated instruction that has nothing to do does nothing. -/
theorem exec_reach_of_remaining_eq_zero (hwide : i.narrowAddress = false)
    (hrepeated : i.prefixes.repetition.isSome)
    (hreach : op.reach? i m.registers = some (access, first)) (hzero : remaining m = 0) :
    (string op w i).exec m = (.ok (), m) := by
  have hcounter : counter.exec m = (.ok 0, m) := by
    rw [← hzero]
    rfl
  cases op with
  | stos =>
    have hnone := Option.isNone_eq_false_iff.mpr hrepeated
    rw [string, storeString, exec_bind_of_ok (exec_requireWideAddress hwide m),
      exec_bind_of_ok (exec_generalLow _ w m), exec_bind_of_ok (exec_general _ m), hnone,
      if_neg Bool.false_ne_true, exec_bind_of_ok hcounter, if_neg (by decide)]
    rfl
  | lods =>
    rw [string, loadString, exec_bind_of_ok (exec_requireWideAddress hwide m),
      exec_bind_of_ok (exec_sourceAddress i m)]
    simp only
    rw [if_pos hrepeated, exec_bind_of_ok hcounter, if_neg (by decide)]
    rfl
  | _ => cases hreach

end Refusals

/-- Where every address permits the access, a repeated store or load leaves what as many single ones
leave. -/
theorem string_eq_stringEach_of_grants {op : StringOp} {access : Access} {first : Address}
    {w : Width} {i : Instruction} {m : Machine} (hm : m.memory.WellFormed)
    (hwide : i.narrowAddress = false) (hrepeated : i.prefixes.repetition.isSome)
    (hreach : op.reach? i m.registers = some (access, first))
    (hgrants : Grants m.memory access first (walksBack m) w (remaining m)) :
    ∃ after memory memory' writes writes',
      (string op w i).exec m = (.ok (), { m with registers := after, memory, writes }) ∧
      (stringEach op w i (remaining m)).exec m = (.ok (), { m with
        registers := after, memory := memory', writes := writes' }) ∧
      ∀ a, memory.byte a = memory'.byte a := by
  by_cases hzero : remaining m = 0
  · refine ⟨m.registers, m.memory, m.memory, m.writes, m.writes,
      exec_reach_of_remaining_eq_zero hwide hrepeated hreach hzero, ?_, fun _ ↦ rfl⟩
    rw [hzero]
    rfl
  have hcheck := (grants_iff_check hm).mp hgrants
  have hbytes : 0 < w.bytes := by cases w <;> decide
  have hend := hm.lt_of_check hcheck (Nat.mul_pos (Nat.pos_of_ne_zero hzero) hbytes)
  cases op with
  | stos =>
    obtain ⟨rfl, rfl⟩ := Prod.mk.inj (Option.some.inj hreach)
    obtain ⟨memory, writes, hrepeat, hfilled⟩ :=
      exec_stos_repeated hwide hrepeated hzero hend hcheck
    obtain ⟨memory', writes', hsingle, hfilled'⟩ := exec_stosEach hm hwide hgrants
    exact ⟨_, memory, memory', writes, writes', hrepeat, hsingle, hfilled.byte_eq hfilled'⟩
  | lods =>
    obtain ⟨rfl, rfl⟩ := Prod.mk.inj (Option.some.inj hreach)
    have htotal := Nat.lt_of_le_of_lt (Nat.le_add_left _ _) hend
    exact ⟨_, _, _, _, _, exec_lods_repeated hwide hrepeated hzero htotal hcheck,
      exec_lodsEach hwide fun k hk ↦ check_of_checkSpan hcheck hk, fun _ ↦ rfl⟩
  | _ => cases hreach

/-- Whatever was done to memory before: a repeated store of the accumulator, or a repeated load,
leaves the registers and bytes that as many single ones leave, each of them with a decrement of the
counter, if every address of the elements permits it, and neither of the two is refused unless its
addresses are narrow. Otherwise, as well as if the length is no number of 64 bits, the repeated one
is refused and changes nothing. -/
theorem string_eq_stringEach (windows : Nat → MapWindow) (history : List Action) (k : Nat)
    (m : Machine) (hm : m.memory = ((World.start windows).after history).memory k)
    {op : StringOp} {access : Access} {first : Address} (w : Width) (i : Instruction)
    (hrepeated : i.prefixes.repetition.isSome)
    (hreach : op.reach? i m.registers = some (access, first)) :
    let repeated := (string op w i).exec m
    let single := (stringEach op w i (remaining m)).exec m
    (Grants m.memory access first (walksBack m) w (remaining m) →
      repeated.2.registers = single.2.registers ∧
        (∀ a, repeated.2.memory.byte a = single.2.memory.byte a) ∧
        (i.narrowAddress = false → repeated.1 = .ok () ∧ single.1 = .ok ())) ∧
    (¬Grants m.memory access first (walksBack m) w (remaining m) ∨
        addressLimit ≤ remaining m * w.bytes →
      ∃ f, repeated = (.error (.fault f), m) ∧ (i.narrowAddress = false → ∃ e, f = .memory e)) := by
  intro repeated single
  have hwellFormed : m.memory.WellFormed := by
    rw [hm]
    exact (World.wellFormed_after windows history).memory k
  by_cases hwide : i.narrowAddress = false
  · constructor
    · intro hgrants
      obtain ⟨after, memory, memory', writes, writes', hrepeat, hsingle, hbytes⟩ :=
        string_eq_stringEach_of_grants hwellFormed hwide hrepeated hreach hgrants
      have hrepeat' : repeated = _ := hrepeat
      have hsingle' : single = _ := hsingle
      rw [hrepeat', hsingle']
      exact ⟨rfl, hbytes, fun _ ↦ ⟨rfl, rfl⟩⟩
    · intro hrefused
      have hcheck : remaining m * w.bytes < addressLimit → m.memory.check access
          (lowest first (walksBack m) w (remaining m)) (remaining m * w.bytes) ≠ .ok () :=
        fun hfit hok ↦ hrefused.elim (fun h ↦ h ((grants_iff_check hwellFormed).mpr hok))
          (Nat.not_le_of_lt hfit)
      have hpos : remaining m ≠ 0 := by
        intro hzero
        rw [hzero, Nat.zero_mul] at hrefused
        exact hrefused.elim (fun h ↦ h fun k hk ↦ absurd hk (Nat.not_lt_zero k)) (by decide)
      obtain ⟨e, hexec⟩ := exec_string_of_refused hwide hrepeated hreach hpos hcheck
      exact ⟨_, hexec, fun _ ↦ ⟨e, rfl⟩⟩
  · have hnarrow : i.narrowAddress = true := by simpa using hwide
    have hrepeat : repeated = (_, m) := exec_reach_of_narrow w hreach hnarrow m
    have hsingle : single.2 = m := machine_stringEach_of_narrow w hreach hnarrow _
    rw [hrepeat, hsingle]
    exact ⟨fun _ ↦ ⟨rfl, fun _ ↦ rfl, fun h ↦ absurd h hwide⟩,
      fun _ ↦ ⟨_, rfl, fun h ↦ absurd h hwide⟩⟩

/-- A repeated store of words of 32 bits. -/
def repStosd : Instruction where
  mnemonic := .string .stos .dword
  operands := [.implicit, .implicit]
  prefixes := { repetition := some .rep }
  address := 0x1000
  length := 2
  flow := .next
  stackIncrement := 0
  elementSize := 4
  narrowAddress := false

/-- A machine with one frame behind two neighbouring pages that is to store `count` words toward
lower addresses. -/
def fillingMachine (dst : Address) (count : BitVec 64) : Machine :=
  let m := aliasedMachine 0 dst count (Flags.initial.set .direction true)
  { m with registers := m.registers.set Register.rax 0x44434241 }

/-- Two words, of which the second lies on both pages; the first is seen at the other page as well.
No store of 2^62 words is begun. -/
theorem string_fillingMachine :
    (∀ a, ((string .stos .dword repStosd).exec (fillingMachine 0x3002 2)).2.memory.byte a =
      ((stringEach .stos .dword repStosd 2).exec (fillingMachine 0x3002 2)).2.memory.byte a) ∧
    ((string .stos .dword repStosd).exec (fillingMachine 0x3002 2)).2.memory.byte 0x2002 = 0x41 ∧
    ∃ f, (string .stos .dword repStosd).exec (fillingMachine 0x3002 0x4000000000000000) =
      (.error (.fault f), fillingMachine 0x3002 0x4000000000000000) := by
  have hreach (m : Machine) : StringOp.stos.reach? repStosd m.registers =
      some (.write, m.registers.get Register.rdi) := rfl
  have hremaining : remaining (fillingMachine 0x3002 2) = 2 := by decide +kernel
  obtain ⟨hequal, -⟩ := string_eq_stringEach (fun _ ↦ {}) aliasedPages 0
    (fillingMachine 0x3002 2) rfl .dword repStosd rfl (hreach _)
  obtain ⟨-, hrefused⟩ := string_eq_stringEach (fun _ ↦ {}) aliasedPages 0
    (fillingMachine 0x3002 0x4000000000000000) rfl .dword repStosd rfl (hreach _)
  obtain ⟨-, hbytes, -⟩ := hequal (by decide +kernel)
  obtain ⟨f, hexec, -⟩ := hrefused (.inr (by decide +kernel))
  rw [hremaining] at hbytes
  exact ⟨hbytes, by decide +kernel, f, hexec⟩

end Exec

end LongMode
