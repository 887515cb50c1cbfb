import LongMode.Decode.Form
import LongMode.Memory.LittleEndian
import LongMode.Proofs.Decode.Reader

/-!
The byte strings that a reader takes. `Reader.Takes` relates a reader to the strings that it
consumes as a whole, each with the value that it is done with then. A sequence of readers takes the
strings that its parts take, one behind the other (`Reader.takes_bind`), so that the format of an
instruction can be read off the reader: prefixes and an opcode byte (`PrefixState.exists_of_takes`),
numbers, and operands.
-/

set_option autoImplicit false
set_option relaxedAutoImplicit false

namespace LongMode

namespace Reader

variable {α β : Type}

/-- A reader consumes a string of bytes as a whole and is done with a value. -/
def Takes : Reader α → List UInt8 → α → Prop
  | done value, bytes, v => bytes = [] ∧ value = v
  | reject, _, _ => False
  | byte _, [], _ => False
  | byte k, b :: bs, v => (k b).Takes bs v

/-- What a reader consumed is what it takes. -/
theorem takes_of_run {r : Reader α} {taken length : Nat} {window : List UInt8} {v : α}
    (h : r.run taken window = .complete v length) :
    r.Takes (window.take (length - taken)) v := by
  induction r generalizing taken window with
  | done value =>
    rw [run, Outcome.complete.injEq] at h
    obtain ⟨rfl, rfl⟩ := h
    rw [Nat.sub_self, List.take_zero]
    exact ⟨rfl, rfl⟩
  | reject => cases h
  | byte k ih =>
    cases window with
    | nil => cases h
    | cons b bs =>
      have hlength := (length_of_run (r := k b) h).1
      obtain ⟨count, hcount⟩ : ∃ count, length - taken = count + 1 :=
        ⟨length - taken - 1, by omega⟩
      rw [hcount, List.take_succ_cons]
      have hrest := ih b h
      rwa [show length - (taken + 1) = count by omega] at hrest

theorem takes_pure {v v' : α} {bytes : List UInt8} :
    (pure v : Reader α).Takes bytes v' ↔ bytes = [] ∧ v = v' :=
  Iff.rfl

theorem takes_next {bytes : List UInt8} {n : Nat} :
    next.Takes bytes n ↔ ∃ b : UInt8, bytes = [b] ∧ b.toNat = n := by
  constructor
  · intro h
    match bytes, h with
    | [b], h => exact ⟨b, rfl, h.2⟩
  · rintro ⟨b, rfl, hn⟩
    exact ⟨rfl, hn⟩

/-- A sequence takes a string in two parts. -/
theorem takes_bind {r : Reader α} {f : α → Reader β} {bytes : List UInt8} {v : β} :
    (r >>= f).Takes bytes v ↔
      ∃ front back x, bytes = front ++ back ∧ r.Takes front x ∧ (f x).Takes back v := by
  induction r generalizing bytes with
  | done value =>
    constructor
    · exact fun h ↦ ⟨[], bytes, value, rfl, ⟨rfl, rfl⟩, h⟩
    · rintro ⟨_, back, _, rfl, ⟨rfl, rfl⟩, h⟩
      exact h
  | reject =>
    constructor
    · exact fun h ↦ h.elim
    · rintro ⟨_, _, _, _, h, _⟩
      exact h.elim
  | byte k ih =>
    constructor
    · intro h
      cases bytes with
      | nil => exact h.elim
      | cons b bs =>
        obtain ⟨front, back, x, rfl, hfront, hback⟩ := (ih b).mp h
        exact ⟨b :: front, back, x, rfl, hfront, hback⟩
    · rintro ⟨front, back, x, rfl, hfront, hback⟩
      cases front with
      | nil => exact hfront.elim
      | cons b front => exact (ih b).mpr ⟨front, back, x, rfl, hfront, hback⟩

/-- A value is made of the value of a reader. -/
theorem takes_map {r : Reader α} {f : α → β} {bytes : List UInt8} {v : β} :
    (do let x ← r; return f x : Reader β).Takes bytes v ↔ ∃ x, r.Takes bytes x ∧ f x = v := by
  constructor
  · intro h
    obtain ⟨front, _, x, rfl, hfront, rfl, hv⟩ := takes_bind.mp h
    rw [List.append_nil]
    exact ⟨x, hfront, hv⟩
  · rintro ⟨x, hx, hv⟩
    exact takes_bind.mpr ⟨bytes, [], x, (List.append_nil _).symm, hx, rfl, hv⟩

theorem All.takes {P : α → Prop} {r : Reader α} (h : r.All P) {bytes : List UInt8} {v : α}
    (htakes : r.Takes bytes v) : P v := by
  induction r generalizing bytes with
  | done value => exact htakes.2 ▸ h
  | reject => exact htakes.elim
  | byte k ih =>
    cases bytes with
    | nil => exact htakes.elim
    | cons b bs => exact ih b (h b) htakes

/-! ### Numbers -/

theorem takes_number {count : Nat} {bytes : List UInt8} {n : Nat} :
    (number count).Takes bytes n ↔ bytes.length = count ∧ LittleEndian.toNat bytes = n := by
  induction count generalizing bytes n with
  | zero =>
    constructor
    · rintro ⟨rfl, hn⟩
      exact ⟨rfl, hn⟩
    · rintro ⟨hlength, hn⟩
      obtain rfl := List.eq_nil_of_length_eq_zero hlength
      exact ⟨rfl, hn⟩
  | succ count ih =>
    constructor
    · intro h
      obtain ⟨front, back, low, rfl, hlow, h⟩ := takes_bind.mp h
      obtain ⟨high, hhigh, rfl⟩ := takes_map.mp h
      obtain ⟨b, rfl, rfl⟩ := takes_next.mp hlow
      obtain ⟨hlength, rfl⟩ := ih.mp hhigh
      exact ⟨congrArg (· + 1) hlength, rfl⟩
    · rintro ⟨hlength, rfl⟩
      cases bytes with
      | nil => exact nomatch hlength
      | cons b bs =>
        refine takes_bind.mpr ⟨[b], bs, b.toNat, rfl, takes_next.mpr ⟨b, rfl, rfl⟩, ?_⟩
        exact takes_map.mpr ⟨_, ih.mpr ⟨Nat.succ.inj hlength, rfl⟩, rfl⟩

/-- The number that a string of bytes stands for, with its sign extended. -/
def signExtended (bytes : List UInt8) : BitVec 64 :=
  (BitVec.ofNat (8 * bytes.length) (LittleEndian.toNat bytes)).signExtend 64

theorem takes_signed {count : Nat} {bytes : List UInt8} {v : BitVec 64} :
    (signed count).Takes bytes v ↔ bytes.length = count ∧ signExtended bytes = v := by
  rw [signed, takes_map]
  constructor
  · rintro ⟨n, hn, rfl⟩
    obtain ⟨rfl, rfl⟩ := takes_number.mp hn
    exact ⟨rfl, rfl⟩
  · rintro ⟨rfl, rfl⟩
    exact ⟨_, takes_number.mpr ⟨rfl, rfl⟩, rfl⟩

end Reader

namespace Decode

open Reader

/-! ### Prefixes of 64-bit code -/

/-- Whether a byte is a prefix of 64-bit code that sets operand width and register numbers. -/
def isRex (b : UInt8) : Bool :=
  b.toNat / 16 == 4

/-- Whether a byte is a prefix of 64-bit code. -/
def isPrefix (b : UInt8) : Bool :=
  [0x26, 0x2e, 0x36, 0x3e, 0x64, 0x65, 0x66, 0x67, 0xf0, 0xf2, 0xf3].contains b || isRex b

/-- The bits that a prefix sets; most prefixes set none. -/
def rexBits (b : UInt8) : Rex :=
  if isRex b then
    ⟨b.toNat.testBit 3, b.toNat.testBit 2, b.toNat.testBit 1, b.toNat.testBit 0⟩
  else {}

/-- The bits that prefixes set. The last prefix does, in front of the opcode. -/
def rexOf (prefixes : List UInt8) : Rex :=
  (prefixes.getLast?.map rexBits).getD {}

/-- Whether a segment has a base address in 64-bit code. -/
def hasBase (segment : Segment) : Bool :=
  segment == .fs || segment == .gs

/-- The segment that prefixes name, if it is one with a base address. The last such prefix does. -/
def segmentOf (prefixes : List UInt8) : Option Segment :=
  (prefixes.reverse.find? fun b ↦ b == 0x64 || b == 0x65).map fun b ↦
    if b = 0x64 then .fs else .gs

theorem rexOf_concat (prefixes : List UInt8) (b : UInt8) : rexOf (prefixes ++ [b]) = rexBits b := by
  rw [rexOf, List.getLast?_concat]
  rfl

theorem segmentOf_concat (prefixes : List UInt8) (b : UInt8) : segmentOf (prefixes ++ [b]) =
    if b = 0x64 then some .fs else if b = 0x65 then some .gs else segmentOf prefixes := by
  rw [segmentOf, List.reverse_concat]
  by_cases hfs : b = 0x64
  · simp [hfs]
  · by_cases hgs : b = 0x65
    · simp [hgs]
    · rw [List.find?_cons_of_neg (by simp [hfs, hgs]), if_neg hfs, if_neg hgs, segmentOf]

namespace PrefixState

/-- The state that prefixes leave behind. -/
structure Follows (s : PrefixState) (prefixes : List UInt8) : Prop where
  addressSize : s.addressSize = prefixes.contains 0x67
  operandSize : s.operandSize = prefixes.contains 0x66
  rex : s.rex.getD {} = rexOf prefixes
  segment : s.segment.filter hasBase = segmentOf prefixes

theorem follows_nil : ({} : PrefixState).Follows [] :=
  ⟨rfl, rfl, rfl, rfl⟩

theorem Follows.concat {s s' : PrefixState} {prefixes : List UInt8} {b : UInt8}
    (h : s.Follows prefixes) (haddress : s'.addressSize = (s.addressSize || b == 0x67))
    (hoperand : s'.operandSize = (s.operandSize || b == 0x66))
    (hrex : s'.rex.getD {} = rexBits b)
    (hsegment : s'.segment.filter hasBase =
      if b = 0x64 then some .fs else if b = 0x65 then some .gs else s.segment.filter hasBase) :
    s'.Follows (prefixes ++ [b]) := by
  have hcontains (n : UInt8) : (prefixes ++ [b]).contains n = (prefixes.contains n || b == n) := by
    rw [List.contains_append, List.contains_cons, List.contains_nil, Bool.or_false, BEq.comm]
  refine ⟨?_, ?_, ?_, ?_⟩
  · rw [haddress, h.addressSize, hcontains]
  · rw [hoperand, h.operandSize, hcontains]
  · rw [hrex, rexOf_concat]
  · rw [hsegment, h.segment, segmentOf_concat]

@[simp] theorem addressSize_override (s : PrefixState) (mode : Mode) (segment : Segment) :
    (s.override mode segment).addressSize = s.addressSize := by
  unfold override
  dsimp only
  split <;> rfl

@[simp] theorem operandSize_override (s : PrefixState) (mode : Mode) (segment : Segment) :
    (s.override mode segment).operandSize = s.operandSize := by
  unfold override
  dsimp only
  split <;> rfl

@[simp] theorem rex_override (s : PrefixState) (mode : Mode) (segment : Segment) :
    (s.override mode segment).rex = s.rex := by
  unfold override
  dsimp only
  split <;> rfl

/-- A segment with a base address takes the place of each other, and of them only the last stays. -/
theorem segment_override (s : PrefixState) (segment : Segment) :
    (s.override .bits64 segment).segment.filter hasBase =
      if hasBase segment then some segment else s.segment.filter hasBase := by
  obtain ⟨lock, repetition, held, operandSize, addressSize, rex⟩ := s
  cases held with
  | none => cases segment <;> rfl
  | some held => cases held <;> cases segment <;> rfl

/-- A prefix that no size depends on. -/
theorem Follows.other {s s' : PrefixState} {prefixes : List UInt8} {b : UInt8}
    (h : s.Follows prefixes) (hb : (b == 0x67 || b == 0x66 || isRex b) = false)
    (haddress : s'.addressSize = s.addressSize) (hoperand : s'.operandSize = s.operandSize)
    (hrex : s'.rex = none)
    (hsegment : s'.segment.filter hasBase =
      if b = 0x64 then some .fs else if b = 0x65 then some .gs else s.segment.filter hasBase) :
    s'.Follows (prefixes ++ [b]) := by
  simp only [Bool.or_eq_false_iff] at hb
  obtain ⟨⟨hne, hne'⟩, hnone⟩ := hb
  refine h.concat ?_ ?_ ?_ hsegment
  · rw [haddress, hne, Bool.or_false]
  · rw [hoperand, hne', Bool.or_false]
  · rw [hrex, rexBits, hnone]
    rfl

/-- What one more prefix does to the state. -/
theorem Follows.step {s s' : PrefixState} {prefixes : List UInt8} {b : UInt8}
    (h : s.Follows prefixes) (hstep : s.step? .bits64 b.toNat = some s') :
    isPrefix b ∧ s'.Follows (prefixes ++ [b]) := by
  have hbyte : b = UInt8.ofNat b.toNat := UInt8.ofNat_toNat.symm
  unfold step? at hstep
  dsimp only at hstep
  split at hstep
  case h_7 heq =>
    rw [heq] at hbyte
    subst hbyte
    obtain rfl := Option.some.inj hstep
    exact ⟨rfl, h.concat (Bool.or_false _).symm (Bool.or_true _).symm rfl rfl⟩
  case h_8 heq =>
    rw [heq] at hbyte
    subst hbyte
    obtain rfl := Option.some.inj hstep
    exact ⟨rfl, h.concat (Bool.or_true _).symm (Bool.or_false _).symm rfl rfl⟩
  case h_12 =>
    split at hstep
    · rename_i hrex
      obtain rfl := Option.some.inj hstep
      have hrex : isRex b = true := by simpa [isRex] using hrex
      have hne (n : UInt8) (hn : isRex n = false) : b ≠ n := by
        rintro rfl
        rw [hrex] at hn
        cases hn
      refine ⟨by rw [isPrefix, hrex, Bool.or_true], h.concat ?_ ?_ ?_ ?_⟩
      · rw [beq_eq_false_iff_ne.mpr (hne 0x67 rfl), Bool.or_false]
      · rw [beq_eq_false_iff_ne.mpr (hne 0x66 rfl), Bool.or_false]
      · rw [rexBits, hrex]
        rfl
      · rw [if_neg (hne 0x64 rfl), if_neg (hne 0x65 rfl)]
    · cases hstep
  all_goals
    rename_i heq
    rw [heq] at hbyte
    subst hbyte
    obtain rfl := Option.some.inj hstep
    exact ⟨rfl, h.other rfl (by simp) (by simp) (by simp) (by simp [segment_override, hasBase])⟩

theorem not_isPrefix_of_step? {s : PrefixState} {b : UInt8} (h : s.step? .bits64 b.toNat = none) :
    isPrefix b = false := by
  have hne (n : UInt8) (hn : b.toNat ≠ n.toNat) : b ≠ n := mt (congrArg UInt8.toNat) hn
  unfold step? at h
  dsimp only at h
  split at h
  case h_12 h26 h2e h36 h3e h64 h65 h66 h67 hf0 hf2 hf3 =>
    have hrex : isRex b = false := by
      cases hrex : isRex b with
      | false => rfl
      | true =>
        have hdiv : b.toNat / 16 = 4 := by simpa [isRex] using hrex
        simp [hdiv] at h
    simp [isPrefix, hrex, hne 0x26 h26, hne 0x2e h2e, hne 0x36 h36, hne 0x3e h3e, hne 0x64 h64,
      hne 0x65 h65, hne 0x66 h66, hne 0x67 h67, hne 0xf0 hf0, hne 0xf2 hf2, hne 0xf3 hf3]
  all_goals cases h

/-- What is read in front of an instruction: prefixes, and a byte that is none. -/
theorem exists_of_takes {limit : Nat} {s s' : PrefixState} {before bytes : List UInt8} {op : Nat}
    (hs : s.Follows before) (h : (read .bits64 limit s).Takes bytes (s', op)) :
    ∃ prefixes b, bytes = prefixes ++ [b] ∧ b.toNat = op ∧ prefixes.all isPrefix ∧
      isPrefix b = false ∧ s'.Follows (before ++ prefixes) := by
  induction limit generalizing s before bytes with
  | zero => exact h.elim
  | succ limit ih =>
    obtain ⟨front, back, n, rfl, hnext, hrest⟩ := takes_bind.mp h
    obtain ⟨b, rfl, rfl⟩ := takes_next.mp hnext
    cases hstep : s.step? .bits64 b.toNat with
    | none =>
      simp only [hstep] at hrest
      obtain ⟨rfl, hdone⟩ := takes_pure.mp hrest
      cases hdone
      refine ⟨[], b, rfl, rfl, rfl, not_isPrefix_of_step? hstep, ?_⟩
      rwa [List.append_nil]
    | some next =>
      simp only [hstep] at hrest
      obtain ⟨hhead, hnext⟩ := hs.step hstep
      obtain ⟨prefixes, last, rfl, hop, hall, hlast, hfollows⟩ := ih hnext hrest
      refine ⟨b :: prefixes, last, rfl, hop, ?_, hlast, ?_⟩
      · rw [List.all_cons, hhead, hall]
        rfl
      · rwa [List.append_assoc] at hfollows

end PrefixState

end Decode

end LongMode
