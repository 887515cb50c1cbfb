import LongMode.Decode.Decoder
import LongMode.Proofs.Decode.Reader

/-!
What may follow the head of an instruction. The head is its prefixes, its opcode and its ModRM byte
if it has one (`Decode.head`); the rest is an address and constants. The rest is firm: whatever
bytes it consists of, it is not refused, and it is shortest if the bytes are zeros (`Reader.Firm`).
Only a SIB byte makes a difference to its length, and a zero there announces no displacement.

Where some rest makes a head an instruction, zeros of the same length therefore do so as well
(`Firm.run_append_zeros`, `Decode.all_head`).
-/

set_option autoImplicit false
set_option relaxedAutoImplicit false

namespace LongMode

namespace Reader

variable {α β γ : Type}

/-! ### Readers that are firm -/

/-- A reader that rejects nothing, is done after `count` bytes if they are zeros, and after no fewer
if they are not. -/
def Firm : Reader α → (count : Nat) → Prop
  | done _, count => count = 0
  | reject, _ => False
  | byte k, count => ∃ rest, count = rest + 1 ∧ (k 0).Firm rest ∧
      ∀ b, ∃ other, rest ≤ other ∧ (k b).Firm other

/-- A reader that is never done. -/
abbrev Barren (r : Reader α) : Prop :=
  r.All fun _ ↦ False

theorem firm_pure (v : α) : (pure v : Reader α).Firm 0 := rfl

theorem firm_next : next.Firm 1 :=
  ⟨0, rfl, rfl, fun _ ↦ ⟨0, Nat.le_refl 0, rfl⟩⟩

/-- One firm reader after another, of which the number of zeros is the same for all values that the
first one can be done with. -/
theorem Firm.bind {P : α → Prop} {r : Reader α} {f : α → Reader β} {count more : Nat}
    (h : r.Firm count) (hP : r.All P) (hf : ∀ v, P v → (f v).Firm more) :
    (r >>= f).Firm (count + more) := by
  induction r generalizing count with
  | done v =>
    obtain rfl : count = 0 := h
    rw [Nat.zero_add]
    exact hf v hP
  | reject => exact h.elim
  | byte k ih =>
    obtain ⟨rest, rfl, hzero, hother⟩ := h
    refine ⟨rest + more, by omega, ih 0 hzero (hP 0), fun b ↦ ?_⟩
    obtain ⟨other, hle, hb⟩ := hother b
    exact ⟨other + more, Nat.add_le_add_right hle more, ih b hb (hP b)⟩

/-- The case of `Firm.bind` in which nothing is asked of the first reader. -/
theorem Firm.andThen {r : Reader α} {f : α → Reader β} {count more : Nat} (h : r.Firm count)
    (hf : ∀ v, (f v).Firm more) : (r >>= f).Firm (count + more) :=
  h.bind (All.trivial r) fun v _ ↦ hf v

/-- A value is made of the value of a firm reader. -/
theorem Firm.map {r : Reader α} {count : Nat} (h : r.Firm count) (f : α → β) :
    (do let v ← r; return f v : Reader β).Firm count :=
  h.andThen fun v ↦ firm_pure (f v)

theorem firm_number (count : Nat) : (number count).Firm count := by
  induction count with
  | zero => rfl
  | succ count ih =>
    have hboth := firm_next.andThen fun low ↦ ih.map fun high ↦ low + 256 * high
    rw [Nat.add_comm] at hboth
    exact hboth

theorem firm_signed (count : Nat) : (signed count).Firm count :=
  (firm_number count).map _

/-! ### Running a firm reader -/

theorem Firm.le_of_run {r : Reader α} {count taken length : Nat} (h : r.Firm count)
    {window : List UInt8} {v : α} (hrun : r.run taken window = .complete v length) :
    taken + count ≤ length := by
  induction r generalizing count taken window with
  | done value =>
    obtain rfl : count = 0 := h
    exact (length_of_run hrun).1
  | reject => exact h.elim
  | byte k ih =>
    obtain ⟨rest, rfl, _, hother⟩ := h
    cases window with
    | nil => exact nomatch hrun
    | cons b bs =>
      obtain ⟨other, hle, hb⟩ := hother b
      have hlength := ih b hb hrun
      omega

theorem Firm.run_zeros {r : Reader α} {count : Nat} (h : r.Firm count) (taken : Nat) {zeros : Nat}
    (hzeros : count ≤ zeros) :
    ∃ v, r.run taken (List.replicate zeros 0) = .complete v (taken + count) := by
  induction r generalizing count taken zeros with
  | done value =>
    obtain rfl : count = 0 := h
    exact ⟨value, rfl⟩
  | reject => exact h.elim
  | byte k ih =>
    obtain ⟨rest, rfl, hzero, _⟩ := h
    obtain ⟨zeros, rfl⟩ : ∃ fewer, zeros = fewer + 1 := ⟨zeros - 1, by omega⟩
    obtain ⟨v, hv⟩ := ih 0 hzero (taken + 1) (Nat.le_of_succ_le_succ hzeros)
    refine ⟨v, ?_⟩
    rw [List.replicate_succ, run, hv, Nat.add_assoc, Nat.add_comm 1 rest]

/-- Where a firm reader is done with some bytes at the end of its window, it is done with as many
zeros in their place. -/
theorem Firm.run_append_zeros {r : Reader α} {count taken length : Nat} (h : r.Firm count)
    {window later : List UInt8} {v : α} (hrun : r.run taken (window ++ later) = .complete v length)
    {zeros : Nat} (hzeros : later.length ≤ zeros) :
    ∃ v' length', r.run taken (window ++ List.replicate zeros 0) = .complete v' length' := by
  induction window generalizing r count taken with
  | nil =>
    have hcount := h.le_of_run hrun
    have hlength := (length_of_run hrun).2
    rw [List.nil_append] at hlength
    have hle : count ≤ zeros := by omega
    obtain ⟨v', hv'⟩ := h.run_zeros taken hle
    exact ⟨v', _, hv'⟩
  | cons b bs ih =>
    cases r with
    | done value => exact ⟨value, taken, rfl⟩
    | reject => exact h.elim
    | byte k =>
      obtain ⟨rest, _, _, hother⟩ := h
      obtain ⟨other, _, hb⟩ := hother b
      exact ih hb hrun

/-! ### Sequences -/

instance instLawfulMonad : LawfulMonad Reader :=
  LawfulMonad.mk' Reader
    (fun r ↦ by
      induction r with
      | done v => rfl
      | reject => rfl
      | byte k ih => exact congrArg byte (funext ih))
    (fun v f ↦ rfl)
    (fun r f g ↦ by
      induction r with
      | done v => rfl
      | reject => rfl
      | byte k ih => exact congrArg byte (funext ih))

/-- Running a reader after another that is done. -/
theorem run_bind {r : Reader α} {taken length : Nat} {window : List UInt8} {v : α}
    (h : r.run taken window = .complete v length) (f : α → Reader β) :
    (r >>= f).run taken window = (f v).run length (window.drop (length - taken)) := by
  induction r generalizing taken window with
  | done value =>
    rw [run, Outcome.complete.injEq] at h
    obtain ⟨rfl, rfl⟩ := h
    rw [Nat.sub_self, List.drop_zero]
    rfl
  | reject => cases h
  | byte k ih =>
    cases window with
    | nil => cases h
    | cons b bs =>
      have hlength := (length_of_run (r := k b) h).1
      have hdrop : length - taken = length - (taken + 1) + 1 := by omega
      rw [hdrop, List.drop_succ_cons]
      exact ih b h

/-- A reader that is done is done in the same way if more bytes follow. -/
theorem run_append {r : Reader α} {taken length : Nat} {window : List UInt8} {v : α}
    (h : r.run taken window = .complete v length) (later : List UInt8) :
    r.run taken (window ++ later) = .complete v length := by
  have hlength := (length_of_run h).2
  refine run_eq_of_take_eq h ?_
  rw [List.take_append_of_le_length (by omega)]

/-- A reader that needs more bytes than there are is cut off. -/
theorem run_of_append {r : Reader α} {taken length : Nat} {window later : List UInt8} {v : α}
    (h : r.run taken (window ++ later) = .complete v length)
    (hlength : taken + window.length < length) : r.run taken window = .truncated := by
  induction window generalizing r taken with
  | nil =>
    cases r with
    | done value =>
      rw [run, Outcome.complete.injEq] at h
      rw [List.length_nil] at hlength
      omega
    | reject => cases h
    | byte k => rfl
  | cons b bs ih =>
    cases r with
    | done value =>
      rw [run, Outcome.complete.injEq] at h
      omega
    | reject => cases h
    | byte k =>
      rw [List.length_cons] at hlength
      exact ih h (by omega)

end Reader

namespace Decode

open Reader

/-! ### Addresses -/

namespace Context

variable (c : Context)

theorem firm_displacement (count : Nat) : (c.displacement count).Firm count :=
  (firm_signed count).map _

/-- The length of the displacement that the `mod` field announces. -/
def announced (mod full : Nat) : Nat :=
  if mod = 1 then 1 else if mod = 2 then full else 0

theorem firm_announcedDisplacement (mod full : Nat) :
    (c.announcedDisplacement mod full).Firm (announced mod full) := by
  rw [announcedDisplacement, announced]
  split
  · exact c.firm_displacement 1
  · split
    · exact c.firm_displacement full
    · exact firm_pure _

theorem firm_readShortAddress (m : ModRm) : ∃ count, (c.readShortAddress m).Firm count := by
  rw [readShortAddress]
  split
  · exact ⟨2, (c.firm_displacement 2).map _⟩
  · exact ⟨announced m.mod 2, (c.firm_announcedDisplacement m.mod 2).andThen fun _ ↦ firm_pure _⟩

/-- After a SIB byte there is a displacement that the ModRM byte announces, or a longer one. -/
theorem firm_readScaledAddress (m : ModRm) (sib : Nat) :
    ∃ count, announced m.mod 4 ≤ count ∧ (c.readScaledAddress m sib).Firm count := by
  rw [readScaledAddress]
  split
  · rename_i hlong
    refine ⟨4, ?_, (c.firm_displacement 4).map _⟩
    rw [announced, hlong.2]
    decide
  · exact ⟨announced m.mod 4, Nat.le_refl _, (c.firm_announcedDisplacement m.mod 4).map _⟩

/-- A SIB byte of zero stands for a base and an index, and announces nothing. -/
theorem firm_readScaledAddress_zero (m : ModRm) :
    (c.readScaledAddress m 0).Firm (announced m.mod 4) := by
  rw [readScaledAddress]
  exact (c.firm_announcedDisplacement m.mod 4).map _

theorem firm_readLongAddress (m : ModRm) : ∃ count, (c.readLongAddress m).Firm count := by
  rw [readLongAddress]
  split
  · refine ⟨announced m.mod 4 + 1, announced m.mod 4, rfl, c.firm_readScaledAddress_zero m,
      fun b ↦ c.firm_readScaledAddress m b.toNat⟩
  · split
    · split
      · exact ⟨4, (firm_signed 4).map _⟩
      · exact ⟨4, (c.firm_displacement 4).map _⟩
    · exact ⟨announced m.mod 4, (c.firm_announcedDisplacement m.mod 4).map _⟩

theorem firm_readPlace (m : ModRm) : ∃ count, (c.readPlace m).Firm count := by
  rw [readPlace]
  split
  · exact ⟨0, firm_pure _⟩
  · split
    · exact c.firm_readShortAddress m
    · exact c.firm_readLongAddress m

/-- The `mod` field alone tells whether a place is in memory. -/
theorem all_readPlace (m : ModRm) :
    (c.readPlace m).All fun place ↦ place.isMemory = m.isMemory := by
  rw [readPlace]
  split
  · rename_i hregister
    have hmod : m.mod = 3 := by simpa [ModRm.isRegister] using hregister
    change false = m.isMemory
    simp [ModRm.isMemory, hmod]
  · rename_i hregister
    have hmemory : m.isMemory = true := by simpa [ModRm.isRegister, ModRm.isMemory] using hregister
    rw [hmemory]
    split
    · rw [readShortAddress]
      split
      · exact .after _ fun _ ↦ rfl
      · exact .after _ fun _ ↦ rfl
    · rw [readLongAddress]
      split
      · refine .after _ fun sib ↦ ?_
        rw [readScaledAddress]
        split
        · exact .after _ fun _ ↦ rfl
        · exact .after _ fun _ ↦ rfl
      · split
        · split
          · exact .after _ fun _ ↦ rfl
          · exact .after _ fun _ ↦ rfl
        · exact .after _ fun _ ↦ rfl

end Context

/-! ### Operands -/

/-- The number of bytes that an operand form takes up behind the address. -/
def Form.byteCount (c : Context) (size : Width) : Form → Nat
  | .offset _ => c.addressSize.bytes
  | .imm8 | .imm8Signed | .branch8 => 1
  | .imm16 => 2
  | .imm => if size = .qword then 4 else size.bytes
  | .immFull => size.bytes
  | .branch => if size == .word then 2 else 4
  | .abortHandler => if c.standardSize == .word then 2 else 4
  | .farPointer => size.bytes + 2
  | _ => 0

/-- The segment register that the `reg` field of a ModRM byte names, if it names one. -/
def segmentNamed? (place : Option (ModRm × Place)) : Option Segment :=
  place.bind fun (m, _) ↦ Segment.ofNat? m.reg

namespace Encoding

variable (e : Encoding)

theorem firm_readConstant : e.readConstant.Firm (Form.byteCount e.context e.size .imm) := by
  rw [readConstant, Form.byteCount]
  cases e.size with
  | qword => exact (firm_signed 4).map _
  | byte => exact (firm_number 1).map _
  | word => exact (firm_number 2).map _
  | dword => exact (firm_number 4).map _

/-- The length of an operand does not depend on what its bytes are. -/
theorem firm_read {form : Form} (h : form = .segment → (segmentNamed? e.place).isSome) :
    (e.read form).Firm (form.byteCount e.context e.size) := by
  cases form with
  | segment =>
    obtain ⟨s, hs⟩ := Option.isSome_iff_exists.mp (h rfl)
    rw [segmentNamed?] at hs
    simp only [read, hs]
    exact firm_pure _
  | offset width => exact (firm_number _).map _
  | imm8 => exact (firm_number 1).map _
  | imm8Signed => exact (firm_signed 1).map _
  | imm16 => exact (firm_number 2).map _
  | imm => exact e.firm_readConstant
  | immFull => exact (firm_number _).map _
  | branch8 => exact (firm_signed 1).map _
  | branch => exact (firm_signed _).map _
  | abortHandler => exact (firm_signed _).map _
  | farPointer => exact (firm_number _).map _
  | _ => exact firm_pure _

theorem firm_readAll {forms : List Form} (h : .segment ∈ forms → (segmentNamed? e.place).isSome) :
    (e.readAll forms).Firm (forms.foldr (Form.byteCount e.context e.size · + ·) 0) := by
  induction forms with
  | nil => exact firm_pure _
  | cons form rest ih =>
    have hrest := ih fun hmem ↦ h (List.mem_cons_of_mem _ hmem)
    have hfirst : (e.read form).Firm (form.byteCount e.context e.size) :=
      e.firm_read fun hform ↦ h (hform ▸ List.mem_cons_self)
    exact hfirst.andThen fun draft ↦ hrest.map _

/-- A `reg` field that names no segment register is refused where one is asked for. -/
theorem barren_readAll {forms : List Form} (hmem : .segment ∈ forms)
    (h : segmentNamed? e.place = none) : (e.readAll forms).Barren := by
  induction forms with
  | nil => exact absurd hmem List.not_mem_nil
  | cons form rest ih =>
    rcases List.mem_cons.mp hmem with rfl | hrest
    · rw [segmentNamed?] at h
      have hreject : e.read .segment = .reject := by simp only [read, h]
      rw [readAll, hreject]
      exact True.intro
    · exact .after _ fun draft ↦ (ih hrest).bind fun _ hfalse ↦ hfalse.elim

end Encoding

/-! ### The rest of an instruction -/

namespace Spec

/-- The number of bytes behind the address. -/
def byteCount (s : Spec) (c : Context) : Nat :=
  s.forms.foldr (Form.byteCount c (c.operandSize s.size) · + ·) 0

/-- Whether the ModRM byte and the prefixes suit an instruction: a segment register exists where one
is asked for, and a lock prefix has a destination in memory that may be locked. -/
def Suits (s : Spec) (c : Context) (place : Option (ModRm × Place)) : Prop :=
  (.segment ∈ s.forms → (segmentNamed? place).isSome) ∧
    (c.prefixes.lock && !(s.lockable && refersToMemory place)) = false

variable {s : Spec} {c : Context} {place : Option (ModRm × Place)}

theorem firm_read (opcode : Nat) (h : s.Suits c place) :
    (s.read c opcode place).Firm (s.byteCount c) := by
  have hforms := Encoding.firm_readAll ⟨c, opcode, c.operandSize s.size, place⟩ h.1
  rw [read, ← Nat.add_zero (s.byteCount c)]
  refine hforms.andThen fun drafts ↦ ?_
  rw [h.2]
  exact firm_pure _

theorem barren_read (opcode : Nat) (h : ¬s.Suits c place) : (s.read c opcode place).Barren := by
  rw [read]
  by_cases hsegment : .segment ∈ s.forms → (segmentNamed? place).isSome
  · refine .after _ fun drafts ↦ ?_
    cases hlock : c.prefixes.lock && !(s.lockable && refersToMemory place) with
    | false => exact absurd ⟨hsegment, hlock⟩ h
    | true => exact True.intro
  · rw [Classical.not_imp, Option.not_isSome_iff_eq_none] at hsegment
    exact (Encoding.barren_readAll _ hsegment.1 hsegment.2).bind fun _ hfalse ↦ hfalse.elim

/-- Where a place is does not matter to that, only whether it is in memory. -/
theorem suits_congr {m : ModRm} {p q : Place} (h : p.isMemory = q.isMemory) :
    s.Suits c (some (m, p)) ↔ s.Suits c (some (m, q)) := by
  rw [Suits, Suits, refersToMemory, refersToMemory, h]
  rfl

end Spec

/-! ### The head of an instruction -/

/-- Read the ModRM byte of an instruction, if it has one, and return the reader of what follows. -/
def Entry.head (entry : Entry) (c : Context) (opcode : Nat) (modRmByte : Option Nat) :
    Reader (Reader (Nat → Instruction)) := do
  match entry with
  | invalid => .reject
  | plain spec => return spec.read c opcode none
  | modRm select =>
    let b ← match modRmByte with
      | some b => pure b
      | none => Reader.next
    let m := ModRm.ofByte b
    match select m with
    | none => .reject
    | some spec => return do
      let place ← c.readPlace (if spec.anyMod then { m with mod := 3 } else m)
      spec.read c opcode (some (m, place))

/-- Reading an entry is reading its head and then the rest. -/
theorem Entry.read_eq_head (entry : Entry) (c : Context) (opcode : Nat) (modRmByte : Option Nat) :
    entry.read c opcode modRmByte = entry.head c opcode modRmByte >>= id := by
  cases entry with
  | invalid => rfl
  | plain spec => rfl
  | modRm select =>
    have hselect (b : Nat) : (modRm select).read c opcode (some b) =
        (modRm select).head c opcode (some b) >>= id := by
      simp only [Entry.read, Entry.head, pure_bind]
      cases select (ModRm.ofByte b) with
      | none => rfl
      | some spec => rfl
    cases modRmByte with
    | some b => exact hselect b
    | none => exact congrArg byte (funext fun b ↦ hselect b.toNat)

/-- What follows a ModRM byte is firm, or it never completes: a place is read, and whether that is
in memory is known before. -/
theorem Spec.firm_or_barren (s : Spec) (c : Context) (opcode : Nat) (m m' : ModRm) :
    let rest : Reader (Nat → Instruction) := do
      let place ← c.readPlace m'
      s.read c opcode (some (m, place))
    (∃ count, rest.Firm count) ∨ rest.Barren := by
  obtain ⟨count, hplace⟩ := c.firm_readPlace m'
  have hmemory := c.all_readPlace m'
  -- a place that is in memory just if the place that is read will be
  obtain ⟨sample, hsample⟩ : ∃ sample : Place, sample.isMemory = m'.isMemory := by
    cases m'.isMemory with
    | false => exact ⟨.register 0, rfl⟩
    | true => exact ⟨.memory {}, rfl⟩
  by_cases hsuits : s.Suits c (some (m, sample))
  · refine .inl ⟨count + s.byteCount c, hplace.bind hmemory fun place hp ↦ ?_⟩
    exact Spec.firm_read opcode ((Spec.suits_congr (hp.trans hsample.symm)).mpr hsuits)
  · refine .inr (hmemory.bind fun place hp ↦ ?_)
    exact Spec.barren_read opcode (mt (Spec.suits_congr (hp.trans hsample.symm)).mp hsuits)

/-- Once its head is read, an instruction is firm, or it never completes. -/
theorem Entry.all_head (entry : Entry) (c : Context) (opcode : Nat) (modRmByte : Option Nat) :
    (entry.head c opcode modRmByte).All fun rest ↦ (∃ count, rest.Firm count) ∨ rest.Barren := by
  cases entry with
  | invalid => exact True.intro
  | plain spec =>
    by_cases hsuits : spec.Suits c none
    · exact .inl ⟨_, Spec.firm_read opcode hsuits⟩
    · exact .inr (Spec.barren_read opcode hsuits)
  | modRm select =>
    have hselect (b : Nat) : ((modRm select).head c opcode (some b)).All
        fun rest ↦ (∃ count, rest.Firm count) ∨ rest.Barren := by
      dsimp only [Entry.head]
      refine .after (pure b) fun b ↦ ?_
      cases select (ModRm.ofByte b) with
      | none => exact True.intro
      | some spec => exact spec.firm_or_barren c opcode _ _
    cases modRmByte with
    | some b => exact hselect b
    | none => exact fun b ↦ hselect b.toNat

/-- What is left of a window when the head of an instruction is read: it is firm, or there is no
instruction in it. -/
def IsRest (rest : Reader Finding) : Prop :=
  (∃ count, rest.Firm count) ∨ rest.All fun finding ↦ finding = .extended

/-- Read the head of an entry. -/
def entryHead (c : Context) (op : Nat) (entry : Entry) (modRmByte : Option Nat := none) :
    Reader (Reader Finding) := do
  let rest ← entry.head c op modRmByte
  return do return .instruction (← rest)

/-- Read the head of an instruction whose opcode is shared with an extended encoding. -/
def sharedHead (c : Context) (op : Nat) (plain : Nat → Bool) (extended : Nat → Reader Unit) :
    Reader (Reader Finding) := do
  let b ← Reader.next
  if plain b then entryHead c op (Opcode.oneByte c op) (some b)
  else return readExtended (extended b)

/-- Read the head of an instruction after the escape byte. -/
def escapedHead (c : Context) : Reader (Reader Finding) := do
  let op ← Reader.next
  match op with
  | 0x0f => return readExtended (Extended.readPackedFloat c)
  | 0x38 =>
    let op ← Reader.next
    entryHead c op (Opcode.map38 c op)
  | 0x3a =>
    let op ← Reader.next
    entryHead c op (Opcode.map3A c op)
  | _ => entryHead c op (Opcode.twoByte c op)

/-- Read the head of an instruction after its first opcode byte. -/
def opcodeHead (c : Context) (op : Nat) : Reader (Reader Finding) :=
  let legacy (b : Nat) : Bool := !c.is64 && (ModRm.ofByte b).isMemory
  match op with
  | 0x0f => escapedHead c
  | 0x62 => sharedHead c op legacy (Extended.readEvex c)
  | 0xc4 => sharedHead c op legacy (Extended.readVex c true)
  | 0xc5 => sharedHead c op legacy (Extended.readVex c false)
  | 0x8f => sharedHead c op (· % 32 < 8) (Extended.readXop c)
  | _ =>
    if op / 8 = 0x1b then entryHead c op (Opcode.floatingPoint c op)
    else entryHead c op (Opcode.oneByte c op)

/-- Read the head of an instruction, which is its prefixes, its opcode and its ModRM byte if it has
one, and return the reader of what follows. -/
def head (mode : Mode) (address : Address) : Reader (Reader Finding) := do
  let (prefixes, op) ← PrefixState.read mode maxLength {}
  opcodeHead { mode, address, prefixes } op

section Head

variable (c : Context) (op : Nat)

theorem entryHead_bind (entry : Entry) (modRmByte : Option Nat) :
    entryHead c op entry modRmByte >>= id = readEntry c op entry modRmByte := by
  rw [readEntry, Entry.read_eq_head, entryHead, bind_assoc, bind_assoc]
  rfl

theorem sharedHead_bind (plain : Nat → Bool) (extended : Nat → Reader Unit) :
    sharedHead c op plain extended >>= id = readShared c op plain extended := by
  rw [sharedHead, readShared, bind_assoc]
  congr 1
  funext b
  split
  · exact entryHead_bind c op _ _
  · rfl

theorem escapedHead_bind : escapedHead c >>= id = readEscaped c := by
  rw [escapedHead, readEscaped, bind_assoc]
  congr 1
  funext op
  split
  · rfl
  · rw [bind_assoc]
    exact congrArg _ (funext fun op ↦ entryHead_bind c op _ _)
  · rw [bind_assoc]
    exact congrArg _ (funext fun op ↦ entryHead_bind c op _ _)
  · simp [*, entryHead_bind]

theorem opcodeHead_bind : opcodeHead c op >>= id = readOpcode c op := by
  unfold opcodeHead readOpcode
  dsimp only
  split
  · exact escapedHead_bind c
  · exact sharedHead_bind c _ _ _
  · exact sharedHead_bind c _ _ _
  · exact sharedHead_bind c _ _ _
  · exact sharedHead_bind c _ _ _
  · split
    · simp [*, entryHead_bind]
    · simp [*, entryHead_bind]

/-- An instruction is read by reading its head and then the rest. -/
theorem head_bind (mode : Mode) (a : Address) : head mode a >>= id = reader mode a := by
  rw [head, reader, bind_assoc]
  exact congrArg _ (funext fun _ ↦ opcodeHead_bind _ _)

theorem all_entryHead (entry : Entry) (modRmByte : Option Nat) :
    (entryHead c op entry modRmByte).All IsRest := by
  refine (entry.all_head c op modRmByte).bind fun rest hrest ↦ ?_
  rcases hrest with ⟨count, hfirm⟩ | hbarren
  · exact .inl ⟨count, hfirm.map _⟩
  · exact .inr (hbarren.bind fun _ hfalse ↦ hfalse.elim)

theorem isRest_readExtended (r : Reader Unit) : IsRest (readExtended r) :=
  .inr (.after r fun _ ↦ rfl)

theorem all_sharedHead (plain : Nat → Bool) (extended : Nat → Reader Unit) :
    (sharedHead c op plain extended).All IsRest := by
  refine .after _ fun b ↦ ?_
  split
  · exact all_entryHead c op _ _
  · exact isRest_readExtended _

theorem all_escapedHead : (escapedHead c).All IsRest := by
  refine .after _ fun op ↦ ?_
  split
  · exact isRest_readExtended _
  · exact .after _ fun op ↦ all_entryHead c op _ _
  · exact .after _ fun op ↦ all_entryHead c op _ _
  · exact all_entryHead c op _ _

theorem all_opcodeHead : (opcodeHead c op).All IsRest := by
  unfold opcodeHead
  dsimp only
  split
  · exact all_escapedHead c
  · exact all_sharedHead c _ _ _
  · exact all_sharedHead c _ _ _
  · exact all_sharedHead c _ _ _
  · exact all_sharedHead c _ _ _
  · split
    · exact all_entryHead c op _ _
    · exact all_entryHead c op _ _

theorem all_head (mode : Mode) (a : Address) : (head mode a).All IsRest :=
  .after _ fun _ ↦ all_opcodeHead _ _

end Head

end Decode

end LongMode
