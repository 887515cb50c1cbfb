import LongMode.Elf.Stack
import LongMode.Proofs.Memory.Owned
import LongMode.Proofs.Outcomes
import Mathlib.Data.List.Forall2

/-!
What building a stack does, where the stack has cells of its own.

* A step ends just in case there is room for what it puts on the stack, and otherwise it says that
  the stack is full (`StackBuild.Takes`); memory refuses none of its stores.
* What a step stores lies between the pointer after it and the pointer before it
  (`StackBuilder.Extends`). So strings that were put on the stack before stay where they are, and
  nothing outside of the stack changes.
* Hence the contents of a stack are in place after they were put there, with the block of words
  below all strings and at a multiple of 16 (`StackBuild.takes_build`).
-/

set_option autoImplicit false
set_option relaxedAutoImplicit false

namespace LongMode.Elf

/-! ### Stacks under construction -/

namespace StackBuilder

/-- A builder of a stack that ends at `top`: the stack has cells of its own, and the pointer is in
it. -/
structure Regular (top : Nat) (b : StackBuilder) : Prop where
  owns : b.memory.Owns b.floor top
  floor_le : b.floor ≤ b.pointer
  le_top : b.pointer ≤ top

/-- One builder comes from another by stores between their pointers. -/
structure Extends (b b' : StackBuilder) : Prop where
  space_eq : b'.memory.space = b.memory.space
  floor_eq : b'.floor = b.floor
  floor_le : b.floor ≤ b'.pointer
  pointer_le : b'.pointer ≤ b.pointer
  byte (n : Nat) : n < b'.pointer ∨ b.pointer ≤ n →
    b'.memory.view.byte n = b.memory.view.byte n

/-- One builder comes from another by stores that take `size` bytes. -/
structure Pushes (size : Nat) (b b' : StackBuilder) : Prop extends b.Extends b' where
  pointer_add : b'.pointer + size = b.pointer

/-- A byte string is in the part of the stack that is in use. -/
def Has (top : Nat) (a : Address) (bytes : List UInt8) (b : StackBuilder) : Prop :=
  b.memory.view.Lies b.pointer top a bytes

variable {top size size' : Nat} {b b' b'' : StackBuilder}

theorem Regular.pushes_zero (h : b.Regular top) : b.Pushes 0 b :=
  ⟨⟨rfl, rfl, h.floor_le, Nat.le_refl _, fun _ _ ↦ rfl⟩, rfl⟩

theorem Regular.of_extends (h : b.Regular top) (hext : b.Extends b') : b'.Regular top := by
  refine ⟨?_, ?_, Nat.le_trans hext.pointer_le h.le_top⟩
  · rw [hext.floor_eq]
    exact h.owns.of_space_eq hext.space_eq
  · rw [hext.floor_eq]
    exact hext.floor_le

theorem Extends.trans (h : b.Extends b') (h' : b'.Extends b'') : b.Extends b'' := by
  have hle := h.pointer_le
  have hle' := h'.pointer_le
  refine ⟨h'.space_eq.trans h.space_eq, h'.floor_eq.trans h.floor_eq, ?_,
    Nat.le_trans hle' hle, fun n hn ↦ ?_⟩
  · have hfloor := h'.floor_le
    rwa [h.floor_eq] at hfloor
  · rw [h'.byte n (by omega), h.byte n (by omega)]

theorem Pushes.trans (h : b.Pushes size b') (h' : b'.Pushes size' b'') :
    b.Pushes (size + size') b'' := by
  refine ⟨h.toExtends.trans h'.toExtends, ?_⟩
  have hadd := h.pointer_add
  have hadd' := h'.pointer_add
  omega

/-- Bytes may be stored at the pointer of a builder, up to where another one began. -/
theorem Extends.store (h : b.Extends b') {m : Memory} {bytes : List UInt8}
    (hspace : m.space = b'.memory.space) (hview : m.view = b'.memory.view.put b'.pointer bytes)
    (hfit : b'.pointer + bytes.length ≤ b.pointer) : b.Extends { b' with memory := m } := by
  refine ⟨hspace.trans h.space_eq, h.floor_eq, h.floor_le, h.pointer_le, fun n hn ↦ ?_⟩
  simp only at hn
  simp only [hview, View.byte_put]
  rw [if_neg (by omega), h.byte n hn]

/-- The pointer may be rounded down to a multiple of 16 if the floor of the stack is one. -/
theorem Extends.align (h : b.Extends b') (hfloor : 16 ∣ b.floor) :
    b.Extends { b' with pointer := b'.pointer / 16 * 16 } := by
  have hlow := h.floor_le
  have hhigh := h.pointer_le
  refine ⟨h.space_eq, h.floor_eq, ?_, ?_, fun n hn ↦ h.byte n ?_⟩
  all_goals
    simp only at *
    omega

theorem Has.of_extends {a : Address} {bytes : List UInt8} (h : b.Has top a bytes)
    (hext : b.Extends b') : b'.Has top a bytes :=
  h.mono hext.pointer_le fun n hn ↦ hext.byte n (.inr hn)

end StackBuilder

/-! ### Room on the stack -/

namespace StackBuild

open StackBuilder

/-- Begun where `size` bytes are free a step ends, and how it ends satisfies `Q`. Begun where fewer
are free it finds the stack full. -/
structure Takes {α : Type} (size : Nat) (c : StackBuild α) (b : StackBuilder)
    (Q : α → StackBuilder → Prop) : Prop where
  ends : b.floor + size ≤ b.pointer → ∃ v b', Ends c b v b' ∧ Q v b'
  full : b.pointer < b.floor + size → ∃ b', c.run.run b = (.error .full, b')

variable {α β : Type} {size size' top : Nat} {c : StackBuild α} {f : α → StackBuild β}
  {b : StackBuilder} {Q : α → StackBuilder → Prop} {R : β → StackBuilder → Prop}

/-- Two steps, one after the other, take what they take together. -/
theorem Takes.bind (hc : Takes size c b fun v b' ↦ b.Pushes size b' ∧ Q v b')
    (hf : ∀ v b', b.Pushes size b' → Q v b' → Takes size' (f v) b' R) :
    Takes (size + size') (c >>= f) b R := by
  constructor
  · intro hroom
    obtain ⟨v, b', hends, hpush, hQ⟩ := hc.ends (by omega)
    have hadd := hpush.pointer_add
    have hfloor := hpush.floor_eq
    obtain ⟨w, b'', hends', hR⟩ := (hf v b' hpush hQ).ends (by omega)
    exact ⟨w, b'', ends_bind_iff.mpr ⟨v, b', hends, hends'⟩, hR⟩
  · intro hroom
    rcases Nat.lt_or_ge b.pointer (b.floor + size) with hfull | hfirst
    · obtain ⟨b', hrun⟩ := hc.full hfull
      exact ⟨b', run_bind_of_error hrun⟩
    · obtain ⟨v, b', hends, hpush, hQ⟩ := hc.ends hfirst
      have hadd := hpush.pointer_add
      have hfloor := hpush.floor_eq
      obtain ⟨b'', hrun⟩ := (hf v b' hpush hQ).full (by omega)
      exact ⟨b'', hends.run_bind.trans hrun⟩

/-- A step may be followed by one that takes nothing more. -/
theorem Takes.andEnds (hc : Takes size c b Q)
    (hf : ∀ v b', Q v b' → ∃ w b'', Ends (f v) b' w b'' ∧ R w b'') :
    Takes size (c >>= f) b R := by
  constructor
  · intro hroom
    obtain ⟨v, b', hends, hQ⟩ := hc.ends hroom
    obtain ⟨w, b'', hends', hR⟩ := hf v b' hQ
    exact ⟨w, b'', ends_bind_iff.mpr ⟨v, b', hends, hends'⟩, hR⟩
  · intro hroom
    obtain ⟨b', hrun⟩ := hc.full hroom
    exact ⟨b', run_bind_of_error hrun⟩

theorem takes_reserve (size : Nat) :
    Takes size (reserve size) b fun _ b' ↦ b.Pushes size b' ∧ b'.memory = b.memory := by
  constructor
  · intro hroom
    refine ⟨(), { b with pointer := b.pointer - size }, ?_, ⟨⟨rfl, rfl, ?_, ?_, fun _ _ ↦ rfl⟩, ?_⟩,
      rfl⟩
    · refine ends_bind_iff.mpr ⟨b, b, ends_get_iff.mpr ⟨rfl, rfl⟩, ?_⟩
      rw [if_pos hroom]
      exact ends_set_iff.mpr rfl
    all_goals
      simp only
      omega
  · intro hroom
    refine ⟨b, ?_⟩
    change StateT.run (ExceptT.run
      (if b.floor + size ≤ b.pointer then set { b with pointer := b.pointer - size }
      else throw .full : StackBuild Unit)) b = _
    rw [if_neg (Nat.not_le_of_lt hroom)]
    rfl

/-- Bytes for which there is room are stored at the pointer. -/
theorem exists_ends_store (hb : b.Regular top) {bytes : List UInt8}
    (hfit : b.pointer + bytes.length ≤ top) :
    ∃ m, m.space = b.memory.space ∧ m.view = b.memory.view.put b.pointer bytes ∧
      Ends (do store bytes; return BitVec.ofNat 64 (← get).pointer) b
        (BitVec.ofNat 64 b.pointer) { b with memory := m } := by
  obtain ⟨m, hpoke, hspace, hview⟩ := hb.owns.exists_poke hb.floor_le hfit
  refine ⟨m, hspace, hview, ends_bind_iff.mpr ⟨(), { b with memory := m }, ?_, ?_⟩⟩
  · refine ends_bind_iff.mpr ⟨b, b, ends_get_iff.mpr ⟨rfl, rfl⟩, ?_⟩
    simp only [hpoke]
    exact ends_set_iff.mpr rfl
  · exact ends_bind_iff.mpr ⟨_, _, ends_get_iff.mpr ⟨rfl, rfl⟩, ends_pure_iff.mpr ⟨rfl, rfl⟩⟩

theorem takes_push (hb : b.Regular top) (bytes : List UInt8) :
    Takes bytes.length (push bytes) b fun a b' ↦
      b.Pushes bytes.length b' ∧ b'.Has top a bytes := by
  refine (takes_reserve bytes.length).andEnds fun _ b₁ ⟨hpush, _⟩ ↦ ?_
  have hb₁ := hb.of_extends hpush.toExtends
  have hadd := hpush.pointer_add
  have hfit : b₁.pointer + bytes.length ≤ top := Nat.le_trans (Nat.le_of_eq hadd) hb.le_top
  obtain ⟨m, hspace, hview, hends⟩ := exists_ends_store hb₁ hfit
  have htoNat := hb₁.owns.toNat_ofNat hb₁.le_top
  refine ⟨_, _, hends, ⟨hpush.toExtends.store hspace hview (Nat.le_of_eq hadd), hadd⟩, ?_, ?_, ?_⟩
  · exact Nat.le_of_eq htoNat.symm
  · rwa [htoNat]
  · rw [htoNat]
    simp only [hview]
    exact View.holds_put _ _ _

/-- The number of bytes that texts take, each with a zero byte behind it. -/
def textsSize (texts : List String) : Nat :=
  (texts.flatMap terminated).length

theorem textsSize_cons (text : String) (texts : List String) :
    textsSize (text :: texts) = (terminated text).length + textsSize texts :=
  List.length_append

theorem textsSize_append (texts texts' : List String) :
    textsSize (texts ++ texts') = textsSize texts + textsSize texts' := by
  rw [textsSize, List.flatMap_append, List.length_append]
  rfl

theorem takes_pushTexts (hb : b.Regular top) (texts : List String) :
    Takes (textsSize texts) (pushTexts texts) b fun addresses b' ↦
      b.Pushes (textsSize texts) b' ∧
        List.Forall₂ (fun a text ↦ b'.Has top a (terminated text)) addresses texts := by
  induction texts with
  | nil =>
    refine ⟨fun _ ↦ ⟨[], b, ends_pure_iff.mpr ⟨rfl, rfl⟩, hb.pushes_zero, .nil⟩, fun hroom ↦ ?_⟩
    exact absurd hb.floor_le (Nat.not_le_of_lt hroom)
  | cons text texts ih =>
    rw [textsSize_cons, Nat.add_comm]
    refine ih.bind fun addresses b₁ hpush haddresses ↦ ?_
    refine (takes_push (hb.of_extends hpush.toExtends) _).andEnds fun a b₂ ⟨hpush', ha⟩ ↦ ?_
    refine ⟨_, b₂, ends_pure_iff.mpr ⟨rfl, rfl⟩, hpush.trans hpush', .cons ha ?_⟩
    exact haddresses.imp fun _ _ h ↦ h.of_extends hpush'.toExtends

end StackBuild

/-! ### The contents in place -/

/-- The addresses of what is on a stack above the block of words. -/
structure StackAddresses where
  /-- The addresses of the arguments. -/
  arguments : List Address
  /-- The addresses of the environment. -/
  environment : List Address
  /-- The address of the name of the processor. -/
  platform : Address
  /-- The address of the random bytes. -/
  random : Address
  /-- The address of the path of the program. -/
  path : Address

/-- Words as bytes. -/
def wordBytes (words : List (BitVec 64)) : List UInt8 :=
  words.flatMap fun w ↦ LittleEndian.ofNat 8 w.toNat

theorem length_wordBytes (words : List (BitVec 64)) :
    (wordBytes words).length = words.length * 8 := by
  induction words with
  | nil => rfl
  | cons w words ih =>
    rw [wordBytes, List.flatMap_cons, ← wordBytes, List.length_append, ih,
      LittleEndian.length_ofNat, List.length_cons, Nat.succ_mul, Nat.add_comm]

namespace StackContents

variable (c : StackContents)

/-- The number of words in the block. -/
def blockLength : Nat :=
  1 + (c.arguments.length + 1) + (c.environment.length + 1) + 2 * (c.auxiliary.length + 4)

/-- The number of bytes that the contents of a stack take, before the pointer is rounded down. There
is always room for rounding down: the floor of a stack is the start of a page. -/
def size : Nat :=
  StackBuild.textsSize (c.path :: c.environment ++ c.arguments ++ [platformName]) + 16
    + 8 * c.blockLength

/-- The contents of a stack are in place, with the block of words at a pointer and all strings
above the block. -/
structure InPlace (v : View) (top pointer : Nat) (s : StackAddresses) : Prop where
  aligned : 16 ∣ pointer
  block : v.Holds pointer
    (wordBytes (StackBuild.block c s.arguments s.environment s.platform s.random s.path))
  arguments : List.Forall₂
    (fun a text ↦ v.Lies (pointer + 8 * c.blockLength) top a (terminated text))
    s.arguments c.arguments
  environment : List.Forall₂
    (fun a text ↦ v.Lies (pointer + 8 * c.blockLength) top a (terminated text))
    s.environment c.environment
  platform : v.Lies (pointer + 8 * c.blockLength) top s.platform (terminated platformName)
  random : v.Lies (pointer + 8 * c.blockLength) top s.random c.random.toList
  path : v.Lies (pointer + 8 * c.blockLength) top s.path (terminated c.path)

theorem size_eq :
    c.size = (terminated c.path).length + (StackBuild.textsSize c.environment
      + (StackBuild.textsSize c.arguments + ((terminated platformName).length
      + (c.random.toList.length + c.blockLength * 8)))) := by
  have hnil : StackBuild.textsSize [] = 0 := rfl
  simp only [size, List.cons_append, StackBuild.textsSize_cons, StackBuild.textsSize_append, hnil,
    Vector.length_toList]
  omega

theorem length_block {arguments environment : List Address}
    (harguments : arguments.length = c.arguments.length)
    (henvironment : environment.length = c.environment.length) (platform random path : Address) :
    (StackBuild.block c arguments environment platform random path).length = c.blockLength := by
  have hwords (entries : List AuxiliaryEntry) :
      (entries.flatMap AuxiliaryEntry.words).length = 2 * entries.length := by
    induction entries with
    | nil => rfl
    | cons e entries ih =>
      rw [List.flatMap_cons, List.length_append, ih, List.length_cons]
      simp only [AuxiliaryEntry.words, List.length_cons, List.length_nil]
      omega
  simp only [StackBuild.block, blockLength, List.length_append, List.length_cons, List.length_nil,
    hwords]
  omega

end StackContents

namespace StackBuild

open StackBuilder

variable {top : Nat} {b : StackBuilder}

/-- Putting the contents of a stack in place ends just in case there is room for them. -/
theorem takes_build (hb : b.Regular top) (hfloor : 16 ∣ b.floor) (c : StackContents) :
    Takes c.size (build c) b fun pointer b' ↦
      b.Extends b' ∧ pointer = BitVec.ofNat 64 b'.pointer ∧
        ∃ s, c.InPlace b'.memory.view top b'.pointer s := by
  rw [c.size_eq]
  refine (takes_push hb _).bind fun path b₁ h₁ hpath ↦ ?_
  have hb₁ := hb.of_extends h₁.toExtends
  refine (takes_pushTexts hb₁ _).bind fun environment b₂ h₂ henvironment ↦ ?_
  have hb₂ := hb₁.of_extends h₂.toExtends
  refine (takes_pushTexts hb₂ _).bind fun arguments b₃ h₃ harguments ↦ ?_
  have hb₃ := hb₂.of_extends h₃.toExtends
  refine (takes_push hb₃ _).bind fun platform b₄ h₄ hplatform ↦ ?_
  have hb₄ := hb₃.of_extends h₄.toExtends
  refine (takes_push hb₄ _).bind fun random b₅ h₅ hrandom ↦ ?_
  have hb₅ := hb₄.of_extends h₅.toExtends
  extract_lets words
  have hlength : words.length = c.blockLength :=
    c.length_block harguments.length_eq henvironment.length_eq platform random path
  rw [← hlength]
  refine (takes_reserve _).andEnds fun _ b₆ ⟨h₆, _⟩ ↦ ?_
  -- the pointer goes down to a multiple of 16, and the block of words is stored there
  have h₀₅ := h₁.toExtends.trans <| h₂.toExtends.trans <| h₃.toExtends.trans <|
    h₄.toExtends.trans h₅.toExtends
  have hadd := h₆.pointer_add
  have h₇ := h₆.toExtends.align (h₀₅.floor_eq ▸ hfloor)
  have hfit : b₆.pointer / 16 * 16 + (wordBytes words).length ≤ b₅.pointer := by
    rw [length_wordBytes]
    omega
  have htop := hb₅.le_top
  obtain ⟨m, hspace, hview, hends⟩ :=
    exists_ends_store (hb₅.of_extends h₇) (Nat.le_trans hfit htop)
  have h₈ := h₇.store hspace hview hfit
  refine ⟨_, _, ends_bind_iff.mpr ⟨(), _, ends_modify_iff.mpr rfl, hends⟩, h₀₅.trans h₈, rfl,
    ⟨arguments, environment, platform, random, path⟩, ?_⟩
  have hstop : b₆.pointer / 16 * 16 + 8 * c.blockLength ≤ b₅.pointer := by
    rw [length_wordBytes, hlength] at hfit
    omega
  have hlast {a : Address} {bytes : List UInt8} (h : b₅.Has top a bytes) :
      m.view.Lies (b₆.pointer / 16 * 16 + 8 * c.blockLength) top a bytes :=
    View.Lies.mono h hstop fun n hn ↦ h₈.byte n (.inr hn)
  have h₄₅ := h₅.toExtends
  have h₃₅ := h₄.toExtends.trans h₄₅
  have h₂₅ := h₃.toExtends.trans h₃₅
  have h₁₅ := h₂.toExtends.trans h₂₅
  exact
    { aligned := Nat.dvd_mul_left _ _
      block := by
        simp only [hview]
        exact View.holds_put _ _ _
      arguments := harguments.imp fun _ _ h ↦ hlast (h.of_extends h₃₅)
      environment := henvironment.imp fun _ _ h ↦ hlast (h.of_extends h₂₅)
      platform := hlast (hplatform.of_extends h₄₅)
      random := hlast hrandom
      path := hlast (hpath.of_extends h₁₅) }

end StackBuild

end LongMode.Elf
