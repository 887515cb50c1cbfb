import LongMode.Proofs.Machine.Execute
import LongMode.Proofs.Machine.Moves

/-!
The lock prefix makes an instruction indivisible and changes nothing else. With the prefix a cell is
replaced in one indivisible update of memory; without it the cell is loaded, checked for writing and
stored, and a word that keeps its value is stored again by some instructions and not by others.
All of these are a replacement of the cell (`Exec.Replaces`), which is refused for the same reasons
and leaves the same registers and bytes (`Replaces.agree`).

An instruction with a lock prefix and one without it, alike in operation and operands, therefore
fault alike or complete alike (`Machine.execute_agrees_of_lock`). What does differ is how often the
frames count a store, and the record of stores.
-/

set_option autoImplicit false
set_option relaxedAutoImplicit false

namespace LongMode

/-- Two memories with one page table and the same bytes in all frames. -/
structure Memory.SameBytes (m m' : Memory) : Prop where
  space : m'.space = m.space
  contents : m'.frames.contents = m.frames.contents

namespace Memory.SameBytes

theorem refl (m : Memory) : m.SameBytes m :=
  ⟨rfl, rfl⟩

theorem byte {m m' : Memory} (h : m.SameBytes m') (a : Address) : m'.byte a = m.byte a := by
  rw [byte_eq_getD, byte_eq_getD, h.space, h.contents]

end Memory.SameBytes

namespace Exec

variable {α β : Type}

/-! ### Computations that agree -/

/-- Begun on one machine, two computations end alike, with the same registers and the same bytes in
memory. -/
structure AgreeAt (m : Machine) (c d : Exec α) : Prop where
  outcome : (d.exec m).1 = (c.exec m).1
  registers : (d.exec m).2.registers = (c.exec m).2.registers
  memory : (c.exec m).2.memory.SameBytes (d.exec m).2.memory

theorem AgreeAt.of_exec_eq {m : Machine} {c d : Exec α} (h : d.exec m = c.exec m) :
    AgreeAt m c d := by
  refine ⟨?_, ?_, ?_⟩
  · rw [h]
  · rw [h]
  · rw [h]
    exact .refl _

/-- Two computations agree wherever they are begun. -/
def Agree (c d : Exec α) : Prop :=
  ∀ m, AgreeAt m c d

theorem Agree.refl (c : Exec α) : Agree c c := fun _ ↦
  .of_exec_eq rfl

/-- Computations that agree after a common beginning. -/
theorem Agree.bind (first : Exec β) {f g : β → Exec α} (h : ∀ v, Agree (f v) (g v)) :
    Agree (first >>= f) (first >>= g) := by
  intro m
  cases hexec : first.exec m with
  | mk outcome m' =>
    cases outcome with
    | error e =>
      exact .of_exec_eq ((exec_bind_of_error hexec g).trans (exec_bind_of_error hexec f).symm)
    | ok v =>
      obtain ⟨houtcome, hregisters, hmemory⟩ := h v m'
      have hf := exec_bind_of_ok hexec f
      have hg := exec_bind_of_ok hexec g
      exact ⟨by rw [hf, hg, houtcome], by rw [hf, hg, hregisters], by rwa [hf, hg]⟩

/-! ### Replacing a cell -/

/-- A computation that replaces a cell of memory, and the flags, by what `f` makes of them. The cell
has to be readable, and then writable; a refusal leaves the machine alone. -/
structure Replaces (a : Address) (w : Width)
    (f : Flags → BitVec w.bits → BitVec w.bits × Flags) (c : Exec Unit) : Prop where
  unreadable {m : Machine} {e : MemoryFault} : m.memory.check .read a w.bytes = .error e →
    c.exec m = (.error (.fault (.memory e)), m)
  unwritable {m : Machine} {e : MemoryFault} : m.memory.check .read a w.bytes = .ok () →
    m.memory.check .write a w.bytes = .error e → c.exec m = (.error (.fault (.memory e)), m)
  replaced {m : Machine} : m.memory.check .read a w.bytes = .ok () →
    m.memory.check .write a w.bytes = .ok () →
    ∃ m', c.exec m = (.ok (), m') ∧
      m'.registers =
        { m.registers with rflags := (f m.registers.rflags (m.memory.word a w.bytes)).2 } ∧
      m'.memory.space = m.memory.space ∧
      m'.memory.frames.contents = FrameStore.assign m.memory.frames.contents
        (spread m.memory.space.cell? a.toNat (LittleEndian.ofNat w.bytes
          (f m.registers.rflags (m.memory.word a w.bytes)).1.toNat))

section Replaces

variable {a : Address} {w : Width} {f : Flags → BitVec w.bits → BitVec w.bits × Flags}

/-- However a cell is replaced, the outcome is one and the same. -/
theorem Replaces.agree {c d : Exec Unit} (hc : Replaces a w f c) (hd : Replaces a w f d) :
    Agree c d := by
  intro m
  cases hread : m.memory.check .read a w.bytes with
  | error e =>
    exact .of_exec_eq ((hd.unreadable hread).trans (hc.unreadable hread).symm)
  | ok =>
    cases hwrite : m.memory.check .write a w.bytes with
    | error e =>
      exact .of_exec_eq ((hd.unwritable hread hwrite).trans (hc.unwritable hread hwrite).symm)
    | ok =>
      obtain ⟨m₁, hexec₁, hregisters₁, hspace₁, hcontents₁⟩ := hc.replaced hread hwrite
      obtain ⟨m₂, hexec₂, hregisters₂, hspace₂, hcontents₂⟩ := hd.replaced hread hwrite
      refine ⟨by rw [hexec₁, hexec₂], ?_, ?_⟩
      · rw [hexec₁, hexec₂, hregisters₁, hregisters₂]
      · rw [hexec₁, hexec₂]
        exact ⟨hspace₂.trans hspace₁.symm, hcontents₂.trans hcontents₁.symm⟩

theorem exec_flags (m : Machine) : flags.exec m = (.ok m.registers.rflags, m) := rfl

theorem exec_setFlags (g : Flags) (m : Machine) : (setFlags g).exec m =
    (.ok (), { m with registers := { m.registers with rflags := g } }) := rfl

theorem exec_loadBytes_of_ok {m : Machine} {count : Nat} {bytes : List UInt8}
    (h : m.memory.read a count = .ok bytes) : (loadBytes a count).exec m = (.ok bytes, m) := by
  rw [loadBytes, exec_bind_of_ok (exec_memory m), h]
  rfl

theorem exec_loadBytes_of_error {m : Machine} {count : Nat} {e : MemoryFault}
    (h : m.memory.read a count = .error e) :
    (loadBytes a count).exec m = (.error (.fault (.memory e)), m) := by
  rw [loadBytes, exec_bind_of_ok (exec_memory m), h]
  rfl

theorem exec_load_of_error {m : Machine} {e : MemoryFault}
    (h : m.memory.check .read a w.bytes = .error e) :
    (load a w).exec m = (.error (.fault (.memory e)), m) := by
  have hread : m.memory.read a w.bytes = .error e := by
    rw [Memory.read, h]
    rfl
  exact exec_bind_of_error (exec_loadBytes_of_error hread) _

theorem exec_check_of_error {access : Access} {length : Nat} {m : Machine} {e : MemoryFault}
    (h : m.memory.check access a length = .error e) :
    (check access a length).exec m = (.error (.fault (.memory e)), m) := by
  rw [check, exec_bind_of_ok (exec_memory m), h]
  rfl

theorem exec_store_of_error {m : Machine} {e : MemoryFault} {value : BitVec w.bits}
    (h : m.memory.check .write a w.bytes = .error e) :
    (store a w value).exec m = (.error (.fault (.memory e)), m) := by
  rw [store, storeWord, storeBytes, exec_bind_of_ok (exec_memory m), Memory.write,
    LittleEndian.length_ofNat, h]
  rfl

/-- A store of a word, and then the flags. -/
theorem exec_store_setFlags {m : Machine} (value : BitVec w.bits) (g : Flags)
    (h : m.memory.check .write a w.bytes = .ok ()) :
    ∃ m', (store a w value >>= fun _ ↦ setFlags g).exec m = (.ok (), m') ∧
      m'.registers = { m.registers with rflags := g } ∧
      m'.memory.space = m.memory.space ∧
      m'.memory.frames.contents = FrameStore.assign m.memory.frames.contents
        (spread m.memory.space.cell? a.toNat (LittleEndian.ofNat w.bytes value.toNat)) := by
  have hcheck : m.memory.check .write a (LittleEndian.ofNat w.bytes value.toNat).length =
      .ok () := by
    rwa [LittleEndian.length_ofNat]
  have hstore := exec_storeBytes hcheck
  refine ⟨_, (exec_bind_of_ok hstore _).trans (exec_setFlags g _), rfl, rfl, ?_⟩
  exact m.memory.contents_store a _

/-- A cell to which the word is assigned that it has. -/
theorem assign_word_self {m : Memory} {access : Access}
    (h : m.check access a w.bytes = .ok ()) :
    FrameStore.assign m.frames.contents (spread m.space.cell? a.toNat
      (LittleEndian.ofNat w.bytes (m.word a w.bytes).toNat)) = m.frames.contents := by
  have hend : w.bytes = 0 ∨ a.toNat + w.bytes ≤ addressLimit := by
    rcases (m.check_eq_ok access a w.bytes).mp h with hzero | ⟨hend, _⟩
    · exact .inl hzero
    · exact .inr hend
  rw [m.ofNat_word, m.assign_bytes_self a hend]

/-- An indivisible update is refused for reading before it is refused for writing. -/
theorem exec_atomically_of_error {g : BitVec w.bits → BitVec w.bits × α} {m : Machine}
    {e : MemoryFault}
    (h : m.memory.check .read a w.bytes = .error e ∨
      m.memory.check .read a w.bytes = .ok () ∧ m.memory.check .write a w.bytes = .error e) :
    (atomically a w g).exec m = (.error (.fault (.memory e)), m) := by
  have hupdate : m.memory.atomicUpdate a w.bytes
      (fun old ↦ ((g old).1, old, g old)) = .error e := by
    rcases h with hread | ⟨hread, hwrite⟩
    · rw [Memory.atomicUpdate, hread]
      rfl
    · rw [Memory.atomicUpdate, hread, hwrite]
      rfl
  rw [atomically, exec_bind_of_ok (exec_memory m), hupdate]
  rfl

/-- An indivisible update of a cell gives it the bytes of the new word. -/
theorem exec_atomically {g : BitVec w.bits → BitVec w.bits × α} {m : Machine}
    (hread : m.memory.check .read a w.bytes = .ok ())
    (hwrite : m.memory.check .write a w.bytes = .ok ()) :
    ∃ m', (atomically a w g).exec m = (.ok (g (m.memory.word a w.bytes)).2, m') ∧
      m'.registers = m.registers ∧ m'.memory.space = m.memory.space ∧
      m'.memory.frames.contents = FrameStore.assign m.memory.frames.contents
        (spread m.memory.space.cell? a.toNat (LittleEndian.ofNat w.bytes
          (g (m.memory.word a w.bytes)).1.toNat)) := by
  obtain ⟨after, hupdate⟩ : ∃ after, m.memory.atomicUpdate a w.bytes
      (fun old ↦ ((g old).1, old, g old)) =
        .ok ((m.memory.word a w.bytes, g (m.memory.word a w.bytes)), after) :=
    ⟨_, Memory.atomicUpdate_eq_ok.mpr ⟨hread, hwrite, rfl, rfl⟩⟩
  have hspace := (Memory.stored_atomicUpdate hupdate).space
  have hcontents := Memory.contents_atomicUpdate hupdate
  obtain ⟨_, _, _, hafter⟩ := Memory.atomicUpdate_eq_ok.mp hupdate
  rw [atomically, exec_bind_of_ok (exec_memory m), hupdate]
  by_cases hsame : (g (m.memory.word a w.bytes)).1 = m.memory.word a w.bytes
  · rw [if_pos hsame] at hafter
    subst after
    refine ⟨m, ?_, rfl, rfl, hcontents⟩
    rw [exec_bind_of_ok (rfl : (ofMemory (.ok _) : Exec _).exec m = (.ok _, m))]
    simp only [hsame, ne_eq, not_true, if_false]
    rfl
  · refine ⟨{ m with
      memory := after
      writes := m.writes.push
        ⟨a, LittleEndian.ofNat w.bytes (g (m.memory.word a w.bytes)).1.toNat⟩ }, ?_, rfl, hspace, hcontents⟩
    rw [exec_bind_of_ok (rfl : (ofMemory (.ok _) : Exec _).exec m = (.ok _, m))]
    simp only [hsame, ne_eq, not_false_eq_true, if_true]
    rfl

/-- The indivisible way. -/
theorem replaces_updateLocked : Replaces a w f (updateLocked a w f) := by
  constructor
  · intro m e hread
    rw [updateLocked, exec_bind_of_ok (exec_flags m)]
    exact exec_bind_of_error (exec_atomically_of_error (.inl hread)) _
  · intro m e hread hwrite
    rw [updateLocked, exec_bind_of_ok (exec_flags m)]
    exact exec_bind_of_error (exec_atomically_of_error (.inr ⟨hread, hwrite⟩)) _
  · intro m hread hwrite
    obtain ⟨m', hexec, hregisters, hspace, hcontents⟩ := exec_atomically
      (g := f m.registers.rflags) hread hwrite
    rw [updateLocked, exec_bind_of_ok (exec_flags m), exec_bind_of_ok hexec, exec_setFlags]
    refine ⟨_, rfl, ?_, hspace, hcontents⟩
    rw [hregisters]

/-- Loading, and storing what differs; a word that keeps its value is checked for writing. -/
theorem replaces_loadThenChange : Replaces a w f (do
    let old ← load a w
    let (new, after) := f (← flags) old
    if new = old then check .write a w.bytes else store a w new
    setFlags after) := by
  constructor
  · intro m e hread
    exact exec_bind_of_error (exec_load_of_error hread) _
  · intro m e hread hwrite
    rw [exec_bind_of_ok (exec_load hread), exec_bind_of_ok (exec_flags m)]
    cases f m.registers.rflags (m.memory.word a w.bytes) with
    | mk new after =>
      by_cases hsame : new = m.memory.word a w.bytes
      · simp only [hsame, if_true]
        exact exec_bind_of_error (exec_check_of_error hwrite) _
      · simp only [hsame, if_false]
        exact exec_bind_of_error (exec_store_of_error hwrite) _
  · intro m hread hwrite
    rw [exec_bind_of_ok (exec_load hread), exec_bind_of_ok (exec_flags m)]
    cases f m.registers.rflags (m.memory.word a w.bytes) with
    | mk new after =>
      by_cases hsame : new = m.memory.word a w.bytes
      · simp only [hsame, if_true]
        refine ⟨_, (exec_bind_of_ok (exec_check hwrite) _).trans (exec_setFlags _ _), rfl, rfl, ?_⟩
        exact (assign_word_self hread).symm
      · simp only [hsame, if_false]
        exact exec_store_setFlags new after hwrite

/-- Loading, and storing whatever comes out. -/
theorem replaces_loadThenStore : Replaces a w f (do
    let before ← flags
    let (new, after) := f before (← load a w)
    store a w new
    setFlags after) := by
  constructor
  · intro m e hread
    rw [exec_bind_of_ok (exec_flags m)]
    exact exec_bind_of_error (exec_load_of_error hread) _
  · intro m e hread hwrite
    rw [exec_bind_of_ok (exec_flags m), exec_bind_of_ok (exec_load hread)]
    exact exec_bind_of_error (exec_store_of_error hwrite) _
  · intro m hread hwrite
    rw [exec_bind_of_ok (exec_flags m), exec_bind_of_ok (exec_load hread)]
    exact exec_store_setFlags _ _ hwrite

end Replaces

/-! ### Instructions with and without the prefix -/

/-- Two parts of an instruction that may be missing can be asked for in either order. -/
theorem orUnsupported_comm {γ : Type} (x : Option α) (y : Option β) (f : α → β → Exec γ) :
    (orUnsupported x >>= fun u ↦ orUnsupported y >>= fun v ↦ f u v) =
      (orUnsupported y >>= fun v ↦ orUnsupported x >>= fun u ↦ f u v) := by
  cases x with
  | none =>
    cases y with
    | none => rfl
    | some v => rfl
  | some u =>
    cases y with
    | none => rfl
    | some v => rfl

/-- A destination in memory is the first operand. -/
theorem operand_of_hasMemoryDestination {i : Instruction} (h : i.hasMemoryDestination = true) :
    ∃ o, i.operand 0 = pure (.memory o) ∧ memoryDestination i = pure o := by
  rw [Instruction.hasMemoryDestination, List.head?_eq_getElem?] at h
  split at h
  · rename_i o hoperand
    have hfirst : i.operand 0 = pure (.memory o) := by rw [Instruction.operand, hoperand]; rfl
    refine ⟨o, hfirst, ?_⟩
    rw [memoryDestination, hfirst]
    rfl
  · cases h

section Instructions

variable {i : Instruction}

theorem agree_binaryLocked (op : AluOp) (h : i.hasMemoryDestination = true) :
    Agree (binaryLocked op i) (binary op true i) := by
  obtain ⟨o, hoperand, hdestination⟩ := operand_of_hasMemoryDestination h
  rw [binaryLocked, binary, hdestination, hoperand, pure_bind, pure_bind, Operand.width,
    Instruction.operand, orUnsupported_comm]
  refine .bind _ fun src ↦ .bind _ fun w ↦ .bind (readOperand src w) fun b ↦
    .bind (linear o) fun a ↦ ?_
  exact replaces_updateLocked.agree replaces_loadThenChange

theorem agree_unaryLocked (op : UnaryOp) (h : i.hasMemoryDestination = true) :
    Agree (unaryLocked op i) (unary op i) := by
  obtain ⟨o, hoperand, hdestination⟩ := operand_of_hasMemoryDestination h
  rw [unaryLocked, unary, hdestination, hoperand, pure_bind, pure_bind]
  refine .bind _ fun w ↦ .bind (linear o) fun a ↦ ?_
  exact replaces_updateLocked.agree replaces_loadThenChange

theorem agree_bitLocked {op : BitOp} (hop : op ≠ .test) (h : i.hasMemoryDestination = true) :
    Agree (bitLocked op i) (bit op i) := by
  obtain ⟨o, hoperand, -⟩ := operand_of_hasMemoryDestination h
  rw [bitLocked, bit, hoperand, pure_bind, pure_bind, Operand.width, Instruction.operand,
    orUnsupported_comm]
  refine .bind _ fun src ↦ .bind _ fun w ↦ .bind (locateBit (.memory o) src w) fun located ↦ ?_
  obtain ⟨place, index⟩ := located
  cases place with
  | none => exact .refl _
  | some a =>
    simp only [ne_eq, hop, not_false_eq_true, if_true]
    exact replaces_updateLocked.agree replaces_loadThenStore

/-- An instruction that may be locked does under a lock prefix what it does without one. The
exchanges are the same computation in either case. -/
theorem agree_locked (hlockable : i.mnemonic.isLockable = true)
    (h : i.hasMemoryDestination = true) :
    ∃ effect, i.mnemonic.straight? i = some effect ∧ Agree (locked i) effect := by
  unfold Mnemonic.isLockable at hlockable
  rw [locked]
  split at hlockable
  · rename_i op hmnemonic
    rw [hmnemonic]
    exact ⟨_, rfl, agree_binaryLocked op h⟩
  · rename_i op hmnemonic
    rw [hmnemonic]
    exact ⟨_, rfl, agree_unaryLocked op h⟩
  · rename_i hmnemonic
    rw [hmnemonic]
    exact ⟨_, rfl, .refl (exchange i)⟩
  · rename_i hmnemonic
    rw [hmnemonic]
    exact ⟨_, rfl, .refl (exchangeAdd i)⟩
  · rename_i hmnemonic
    rw [hmnemonic]
    exact ⟨_, rfl, .refl (compareExchange i)⟩
  · rename_i hmnemonic
    rw [hmnemonic]
    exact ⟨_, rfl, .refl (compareExchange8 i)⟩
  · rename_i hmnemonic
    rw [hmnemonic]
    exact ⟨_, rfl, .refl (compareExchange16 i)⟩
  · rename_i op hmnemonic
    rw [hmnemonic]
    exact ⟨_, rfl, agree_bitLocked (by simpa using hlockable) h⟩
  · exact absurd hlockable Bool.false_ne_true

/-- What an instruction does under a lock prefix depends on its operation and its operands. -/
theorem locked_congr {j : Instruction} (hmnemonic : i.mnemonic = j.mnemonic)
    (hoperands : i.operands = j.operands) : locked i = locked j := by
  have hoperand (index : Nat) : i.operand index = j.operand index := by
    rw [Instruction.operand, Instruction.operand, hoperands]
  simp only [locked, hmnemonic, binaryLocked, unaryLocked, bitLocked, exchange, exchangeAdd,
    compareExchange, compareExchange8, compareExchange16, memoryDestination, sourceRegister,
    hoperand]

end Instructions

end Exec

/-! ### Running an instruction with and without the prefix -/

/-- What an instruction does that passes control on in order, and then goes on behind it. -/
theorem Mnemonic.effect?_of_straight? {i : Instruction} {mnemonic : Mnemonic} {c : Exec Unit}
    (h : mnemonic.straight? i = some c) :
    mnemonic.effect? i = some (do c; return .next) := by
  unfold effect?
  split
  · exact nomatch h
  · exact nomatch h
  · exact nomatch h
  · exact nomatch h
  · exact nomatch h
  · exact nomatch h
  · exact nomatch h
  · rw [h]
    rfl

namespace Machine

open Exec

/-- Running an instruction that goes on behind itself. -/
theorem execute_of_effect {i : Instruction} {c : Exec Unit}
    (h : i.effect = .ok (do c; return .next)) (m : Machine) :
    m.execute i =
      ((c.exec m).1.map fun _ ↦ (c.exec m).2.complete i .next, (c.exec m).2.memory) := by
  rw [execute_eq_outcome h, outcome]
  cases hexec : c.exec m with
  | mk outcome m' =>
    cases outcome with
    | error e => rw [exec_bind_of_error hexec, Except.map, Except.map]
    | ok u => rw [exec_bind_of_ok hexec, exec_pure, Except.map, Except.map]

/-- An instruction with a lock prefix and one without it, alike in operation and operands, of which
the operation may be locked and the destination is in memory. Both stop, and at the same fault, or
both complete: with the same registers, except that each goes on behind its own encoding, and with
the host called by both or by none. Either way they leave the same pages and the same bytes. -/
theorem execute_agrees_of_lock (m : Machine) {i j : Instruction}
    (hlock : i.prefixes.lock = true) (hplain : j.prefixes.lock = false)
    (hmnemonic : i.mnemonic = j.mnemonic) (hoperands : i.operands = j.operands)
    (hlockable : i.mnemonic.isLockable = true) (hmemory : i.hasMemoryDestination = true) :
    (∀ fault, (m.execute i).1 = .error fault ↔ (m.execute j).1 = .error fault) ∧
      (∀ done done', (m.execute i).1 = .ok done → (m.execute j).1 = .ok done' →
        done.registers = { done'.registers with rip := i.next } ∧
          done'.registers.rip = j.next ∧ done.syscall = done'.syscall) ∧
      (m.execute i).2.space = (m.execute j).2.space ∧
      ∀ a, (m.execute i).2.byte a = (m.execute j).2.byte a := by
  have hmemory' : j.hasMemoryDestination = true := by
    rwa [Instruction.hasMemoryDestination, ← hoperands]
  obtain ⟨effect, heffect, hagree⟩ := agree_locked (hmnemonic ▸ hlockable) hmemory'
  rw [← locked_congr hmnemonic hoperands] at hagree
  have hlocked : i.effect = .ok (do locked i; return .next) := by
    rw [Instruction.effect, hlock, hlockable, hmemory]
    rfl
  have hunlocked : j.effect = .ok (do effect; return .next) := by
    rw [Instruction.effect, hplain, Mnemonic.effect?_of_straight? heffect]
    rfl
  rw [execute_of_effect hlocked, execute_of_effect hunlocked]
  obtain ⟨houtcome, hregisters, hbytes⟩ := hagree m
  refine ⟨fun fault ↦ ?_, fun done done' hdone hdone' ↦ ?_, hbytes.space.symm,
    fun a ↦ (hbytes.byte a).symm⟩
  · rw [houtcome]
    cases ((locked i).exec m).1 with
    | error e => rfl
    | ok u => exact iff_of_false (fun h ↦ by cases h) (fun h ↦ by cases h)
  · rw [houtcome] at hdone'
    cases hlast : ((locked i).exec m).1 with
    | error e =>
      rw [hlast] at hdone
      cases hdone
    | ok u =>
      rw [hlast] at hdone hdone'
      rw [← Except.ok.inj hdone, ← Except.ok.inj hdone']
      refine ⟨?_, rfl, rfl⟩
      simp only [complete, hregisters]

/-- An addition to the double word at an address that is given. -/
def addTo (a : Address) (lock : Bool) : Instruction where
  mnemonic := .alu .add
  operands := [.memory { displacement := a, size := 4 }, .immediate 0x1ff 4]
  prefixes := { lock }
  address := 0x1000
  length := if lock then 9 else 8
  flow := .next
  stackIncrement := 0
  elementSize := 4
  narrowAddress := false

/-- A cell that begins in the last byte of a page and goes on in the next page, which is the same
frame: the sum is carried from the end of the frame to its beginning. -/
theorem execute_addTo_straddling :
    let m := aliasedMachine 0 0 0 Flags.initial
    (∀ a, (m.execute (addTo 0x2fff true)).2.byte a = (m.execute (addTo 0x2fff false)).2.byte a) ∧
      (m.execute (addTo 0x2fff true)).2.bytes 0x2000 3 = [2, 2, 3] := by
  intro m
  obtain ⟨_, _, _, hbytes⟩ := execute_agrees_of_lock m (i := addTo 0x2fff true)
    (j := addTo 0x2fff false) rfl rfl rfl rfl rfl rfl
  exact ⟨hbytes, by decide +kernel⟩

end Machine

end LongMode
