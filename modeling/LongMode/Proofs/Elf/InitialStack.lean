import LongMode.Proofs.Elf.Evolution
import LongMode.Proofs.Elf.Loading

/-!
What a program finds on its stack. `Memory.programStack?` reads a stack as a program does that
starts: the number of arguments, their addresses up to a zero, the addresses of the environment up
to a zero, and the auxiliary vector up to its last entry.

`World.initialStack_of_load` says what it reads after a program was loaded, in whatever state the
machine was before: the arguments, the environment and the auxiliary vector that were given. It also
says when the stack has too little room for them.
-/

set_option autoImplicit false
set_option relaxedAutoImplicit false

namespace LongMode

open Elf Text

/-! ### Texts -/

namespace Text.Utf8

theorem zero_ne_ofNat {n : Nat} (h : n % 256 ≠ 0) : (0 : UInt8) ≠ UInt8.ofNat n := by
  intro heq
  rw [← UInt8.toNat_inj, UInt8.toNat_ofNat'] at heq
  exact h heq.symm

/-- No byte of a character is zero, unless the character is. -/
theorem zero_notMem_utf8EncodeChar {c : Char} (h : c ≠ '\x00') :
    0 ∉ String.utf8EncodeChar c := by
  have hvalue : c.val.toNat ≠ 0 := fun hzero ↦ h (Char.ext (UInt32.toNat.inj hzero))
  rw [String.utf8EncodeChar]
  split_ifs
  all_goals
    simp only [List.mem_cons, List.not_mem_nil, or_false, not_or]
    repeat' apply And.intro
  all_goals exact zero_ne_ofNat (by omega)

/-- A text without the character of code zero has no zero byte. -/
theorem zero_notMem_encode {text : String} (h : '\x00' ∉ text.toList) : 0 ∉ encode text := by
  rw [encode, String.toUTF8_eq_toByteArray, ← String.utf8Encode_toList, List.utf8Encode,
    List.toList_data_toByteArray, List.mem_flatMap]
  rintro ⟨c, hc, hzero⟩
  have hne : c ≠ '\x00' := fun heq ↦ h (heq ▸ hc)
  exact zero_notMem_utf8EncodeChar hne hzero

end Text.Utf8

/-! ### Reading a stack -/

/-- The first part of a stack, as a program reads it. -/
structure ProgramStack where
  /-- The number of arguments. -/
  count : Nat
  /-- The addresses of the arguments. -/
  arguments : List Address
  /-- The addresses of the environment. -/
  environment : List Address
  /-- The keys and values of the auxiliary vector. -/
  auxiliary : List (BitVec 64 × BitVec 64)
  /-- The address past the auxiliary vector. -/
  stop : Address
  deriving DecidableEq

namespace Memory

/-- More words than there are in memory. -/
def wordLimit : Nat :=
  addressLimit / 8

/-- The word at an address. -/
def word? (m : Memory) (a : Address) : Option (BitVec 64) :=
  (m.readNat a 8).toOption.map (BitVec.ofNat 64)

/-- The bytes at an address, up to a zero byte. -/
def text? (m : Memory) (a : Address) : Option (List UInt8) :=
  (m.readString a addressLimit).toOption

/-- The words at an address up to a zero, and the address past that zero. -/
def pointers? (m : Memory) : (limit : Nat) → Address → Option (List Address × Address)
  | 0, _ => none
  | limit + 1, a => do
    let pointer ← m.word? a
    if pointer = 0 then return ([], a + 8)
    let (pointers, stop) ← m.pointers? limit (a + 8)
    return (pointer :: pointers, stop)

/-- The pairs of a key and a value at an address up to the key zero, and the address past the last
pair. -/
def auxiliary? (m : Memory) :
    (limit : Nat) → Address → Option (List (BitVec 64 × BitVec 64) × Address)
  | 0, _ => none
  | limit + 1, a => do
    let key ← m.word? a
    let value ← m.word? (a + 8)
    if key = 0 then return ([], a + 16)
    let (entries, stop) ← m.auxiliary? limit (a + 16)
    return ((key, value) :: entries, stop)

/-- Read a stack from the stack pointer that a program starts with. -/
def programStack? (m : Memory) (stackPointer : Address) : Option ProgramStack := do
  let count ← m.word? stackPointer
  let (arguments, a) ← m.pointers? wordLimit (stackPointer + 8)
  let (environment, a) ← m.pointers? wordLimit a
  let (auxiliary, stop) ← m.auxiliary? wordLimit a
  return { count := count.toNat, arguments, environment, auxiliary, stop }

end Memory

namespace Elf

/-- An entry of the auxiliary vector as it is read. -/
def AuxiliaryEntry.pair (e : AuxiliaryEntry) : BitVec 64 × BitVec 64 :=
  (BitVec.ofNat 64 e.key.number, e.value)

theorem AuxiliaryKey.ofNat_number_ne_zero {key : AuxiliaryKey} (h : key ≠ .null) :
    BitVec.ofNat 64 key.number ≠ 0 := by
  cases key with
  | null => exact absurd rfl h
  | _ => decide

theorem wordBytes_cons (w : BitVec 64) (words : List (BitVec 64)) :
    wordBytes (w :: words) = LittleEndian.ofNat 8 w.toNat ++ wordBytes words :=
  List.flatMap_cons

end Elf

namespace Memory.Owns

variable {m : Memory} {floor top a : Nat} (h : m.Owns floor top)

include h

/-- Fewer words fit between the bounds than a reader looks at. -/
theorem lt_wordLimit {count : Nat} (hcount : 8 * count ≤ top) : count < wordLimit := by
  have htop := h.top_lt
  simp only [wordLimit, addressLimit] at *
  omega

/-- The first of the words that are held is read, and the others are held behind it. -/
theorem word?_eq {w : BitVec 64} {words : List (BitVec 64)} (hlow : floor ≤ a)
    (hhigh : a + 8 ≤ top) (hwords : m.view.Holds a (wordBytes (w :: words))) :
    m.word? (BitVec.ofNat 64 a) = some w ∧ m.view.Holds (a + 8) (wordBytes words) := by
  rw [wordBytes_cons] at hwords
  have hrest := hwords.right
  rw [LittleEndian.length_ofNat] at hrest
  refine ⟨?_, hrest⟩
  rw [word?, h.readNat_eq_ok hlow hhigh hwords.left, Except.toOption, Option.map_some,
    Address.ofNat_toNat]

/-- Words that are held with a zero behind them are read, and what is behind the zero is held. -/
theorem pointers?_eq {pointers words : List (BitVec 64)} (hne : ∀ p ∈ pointers, p ≠ 0)
    (hlow : floor ≤ a) (hhigh : a + 8 * (pointers.length + 1) ≤ top) {limit : Nat}
    (hlimit : pointers.length < limit)
    (hwords : m.view.Holds a (wordBytes (pointers ++ 0 :: words))) :
    m.pointers? limit (BitVec.ofNat 64 a) =
        some (pointers, BitVec.ofNat 64 (a + 8 * (pointers.length + 1))) ∧
      m.view.Holds (a + 8 * (pointers.length + 1)) (wordBytes words) := by
  induction pointers generalizing a limit with
  | nil =>
    obtain ⟨limit, rfl⟩ := Nat.exists_eq_succ_of_ne_zero (Nat.ne_zero_of_lt hlimit)
    obtain ⟨hword, hrest⟩ := h.word?_eq hlow hhigh hwords
    refine ⟨?_, hrest⟩
    rw [pointers?, hword, Option.bind_eq_bind, Option.bind_some, if_pos rfl]
    exact congrArg (fun stop ↦ some ([], stop)) (BitVec.ofNat_add a 8).symm
  | cons p pointers ih =>
    obtain ⟨limit, rfl⟩ := Nat.exists_eq_succ_of_ne_zero (Nat.ne_zero_of_lt hlimit)
    rw [List.length_cons] at hhigh hlimit
    obtain ⟨hp, hne⟩ := List.forall_mem_cons.mp hne
    obtain ⟨hword, hrest⟩ := h.word?_eq hlow (by omega) hwords
    have hstop : a + 8 + 8 * (pointers.length + 1) = a + 8 * (pointers.length + 1 + 1) := by omega
    obtain ⟨hpointers, hwords⟩ := ih hne (by omega) (by omega) (Nat.lt_of_succ_lt_succ hlimit) hrest
    rw [hstop] at hpointers hwords
    have hnext : BitVec.ofNat 64 a + 8 = BitVec.ofNat 64 (a + 8) := (BitVec.ofNat_add a 8).symm
    refine ⟨?_, hwords⟩
    rw [pointers?, hword, Option.bind_eq_bind, Option.bind_some, if_neg hp, hnext, hpointers]
    rfl

/-- Entries of an auxiliary vector that are held with the last entry behind them are read. -/
theorem auxiliary?_eq {entries : List AuxiliaryEntry} (hne : ∀ e ∈ entries, e.key ≠ .null)
    (hlow : floor ≤ a) (hhigh : a + 16 * (entries.length + 1) ≤ top) {limit : Nat}
    (hlimit : entries.length < limit)
    (hwords : m.view.Holds a (wordBytes (entries.flatMap AuxiliaryEntry.words ++ [0, 0]))) :
    m.auxiliary? limit (BitVec.ofNat 64 a) = some (entries.map AuxiliaryEntry.pair,
      BitVec.ofNat 64 (a + 16 * (entries.length + 1))) := by
  induction entries generalizing a limit with
  | nil =>
    obtain ⟨limit, rfl⟩ := Nat.exists_eq_succ_of_ne_zero (Nat.ne_zero_of_lt hlimit)
    rw [List.length_nil] at hhigh
    obtain ⟨hkey, hrest⟩ := h.word?_eq hlow (by omega) hwords
    obtain ⟨hvalue, _⟩ := h.word?_eq (by omega) (by omega) hrest
    have hnext : BitVec.ofNat 64 a + 8 = BitVec.ofNat 64 (a + 8) := (BitVec.ofNat_add a 8).symm
    rw [auxiliary?, hkey, Option.bind_eq_bind, Option.bind_some, hnext, hvalue, Option.bind_some,
      if_pos rfl]
    exact congrArg (fun stop ↦ some ([], stop)) (BitVec.ofNat_add a 16).symm
  | cons e entries ih =>
    obtain ⟨limit, rfl⟩ := Nat.exists_eq_succ_of_ne_zero (Nat.ne_zero_of_lt hlimit)
    rw [List.length_cons] at hhigh hlimit
    obtain ⟨he, hne⟩ := List.forall_mem_cons.mp hne
    obtain ⟨hkey, hrest⟩ := h.word?_eq hlow (by omega) hwords
    obtain ⟨hvalue, hrest⟩ := h.word?_eq (by omega) (by omega) hrest
    rw [Nat.add_assoc] at hrest
    have hstop : a + 16 + 16 * (entries.length + 1) = a + 16 * (entries.length + 1 + 1) := by
      omega
    have hentries := ih hne (by omega) (by omega) (Nat.lt_of_succ_lt_succ hlimit) hrest
    rw [hstop] at hentries
    have hnext : BitVec.ofNat 64 a + 8 = BitVec.ofNat 64 (a + 8) := (BitVec.ofNat_add a 8).symm
    have hlater : BitVec.ofNat 64 a + 16 = BitVec.ofNat 64 (a + 16) :=
      (BitVec.ofNat_add a 16).symm
    rw [auxiliary?, hkey, Option.bind_eq_bind, Option.bind_some, hnext, hvalue, Option.bind_some,
      if_neg (AuxiliaryKey.ofNat_number_ne_zero he), hlater, hentries]
    rfl

end Memory.Owns

/-! ### The contents of a stack, read back -/

namespace Elf

/-- The entries of the auxiliary vector that hold addresses on the stack. -/
def StackAddresses.auxiliary (s : StackAddresses) : List AuxiliaryEntry :=
  [⟨.platform, s.platform⟩, ⟨.random, s.random⟩, ⟨.programPath, s.path⟩]

namespace StackContents

variable {c : StackContents} {m : Memory} {floor top pointer : Nat} {s : StackAddresses}

theorem block_eq (c : StackContents) (s : StackAddresses) :
    StackBuild.block c s.arguments s.environment s.platform s.random s.path =
      BitVec.ofNat 64 s.arguments.length :: (s.arguments ++ 0 :: (s.environment ++ 0 ::
        ((c.auxiliary ++ s.auxiliary).flatMap AuxiliaryEntry.words ++ [0, 0]))) := by
  simp [StackBuild.block, StackAddresses.auxiliary, AuxiliaryEntry.words, AuxiliaryKey.number]

/-- No string on the stack is at address zero, since the block of words is below all of them. -/
theorem ne_zero_of_lies {v : View} {low : Nat} {addresses : List Address} {texts : List String}
    (hlow : 0 < low)
    (h : List.Forall₂ (fun a text ↦ v.Lies low top a (terminated text)) addresses texts) :
    ∀ a ∈ addresses, a ≠ 0 := by
  have hne : List.Forall₂ (fun a text ↦ a ≠ 0 ∧ v.Lies low top a (terminated text))
      addresses texts := by
    refine h.imp fun a text ha ↦ ⟨?_, ha⟩
    rintro rfl
    exact absurd ha.low_le (Nat.not_le_of_lt hlow)
  exact ((List.forall₂_and_left _ _).mp hne).1

/-- What `Memory.programStack?` reads where the contents of a stack are in place. -/
theorem InPlace.programStack?_eq (hplace : c.InPlace m.view top pointer s)
    (h : m.Owns floor top) (hlow : floor ≤ pointer)
    (hkeys : ∀ e ∈ c.auxiliary, e.key ≠ .null) :
    m.programStack? (BitVec.ofNat 64 pointer) = some
      { count := c.arguments.length
        arguments := s.arguments
        environment := s.environment
        auxiliary := List.map AuxiliaryEntry.pair (c.auxiliary ++ s.auxiliary)
        stop := BitVec.ofNat 64 (pointer + 8 * c.blockLength) } := by
  have harguments := hplace.arguments.length_eq
  have henvironment := hplace.environment.length_eq
  have hstop : pointer + 8 * c.blockLength ≤ top :=
    Nat.le_trans hplace.path.low_le (Nat.le_of_add_right_le hplace.path.le_top)
  have htop := h.top_lt
  have hentries : (c.auxiliary ++ s.auxiliary).length = c.auxiliary.length + 3 :=
    List.length_append
  have hallkeys : ∀ e ∈ c.auxiliary ++ s.auxiliary, e.key ≠ .null :=
    List.forall_mem_append.mpr ⟨hkeys, by simp [StackAddresses.auxiliary]⟩
  have hpositive : 0 < pointer + 8 * c.blockLength := by
    simp only [blockLength]
    omega
  simp only [blockLength, addressLimit] at hstop htop
  have hwords := hplace.block
  rw [block_eq] at hwords
  obtain ⟨hcount, hwords⟩ := h.word?_eq hlow (by omega) hwords
  obtain ⟨hargs, hwords⟩ := h.pointers?_eq (ne_zero_of_lies hpositive hplace.arguments)
    (by omega) (by omega) (h.lt_wordLimit (by omega)) hwords
  obtain ⟨henv, hwords⟩ := h.pointers?_eq (ne_zero_of_lies hpositive hplace.environment)
    (by omega) (by omega) (h.lt_wordLimit (by omega)) hwords
  have haux := h.auxiliary?_eq hallkeys (by omega) (by omega) (h.lt_wordLimit (by omega))
    hwords
  have hnext : BitVec.ofNat 64 pointer + 8 = BitVec.ofNat 64 (pointer + 8) :=
    (BitVec.ofNat_add pointer 8).symm
  have htoNat : (BitVec.ofNat 64 s.arguments.length).toNat = c.arguments.length := by
    rw [BitVec.toNat_ofNat, harguments]
    omega
  have hend : pointer + 8 + 8 * (s.arguments.length + 1) + 8 * (s.environment.length + 1) +
      16 * ((c.auxiliary ++ s.auxiliary).length + 1) = pointer + 8 * c.blockLength := by
    simp only [blockLength]
    omega
  rw [hend] at haux
  rw [Memory.programStack?, hcount, hnext]
  simp only [Option.bind_eq_bind, Option.bind_some, hargs, henv, haux, htoNat]
  rfl

end StackContents

end Elf

/-! ### The stack of a program -/

/-- A text is read at an address, and is between two bounds together with the zero byte behind
it. -/
structure Memory.HasText (m : Memory) (low top : Nat) (a : Address) (text : String) : Prop where
  text?_eq : m.text? a = some (Utf8.encode text)
  low_le : low ≤ a.toNat
  le_top : a.toNat + (terminated text).length ≤ top

/-- A program that reads its stack in memory `m` finds there what the options say. The block of
words starts at a multiple of 16 and ends before the strings, all of which are on the stack. The
auxiliary vector has the entries `auxiliary` and three more, with the addresses of the name of the
processor, of the random bytes and of the path of the program. -/
structure ProgramStack.Conveys (stack : ProgramStack) (m : Memory) (stackPointer : Address)
    (o : LoadOptions) (auxiliary : List AuxiliaryEntry) (platform random path : Address) :
    Prop where
  stack_eq : m.programStack? stackPointer = some stack
  count_eq : stack.count = o.arguments.length
  arguments : List.Forall₂ (m.HasText stack.stop.toNat o.stackEnd) stack.arguments o.arguments
  environment :
    List.Forall₂ (m.HasText stack.stop.toNat o.stackEnd) stack.environment o.environment
  auxiliary_eq : stack.auxiliary = List.map AuxiliaryEntry.pair
    (auxiliary ++ [⟨.platform, platform⟩, ⟨.random, random⟩, ⟨.programPath, path⟩])
  platform_text : m.HasText stack.stop.toNat o.stackEnd platform platformName
  random_bytes : m.read random 16 = .ok o.random.toList
  path_text : m.HasText stack.stop.toNat o.stackEnd path o.programPath
  aligned : 16 ∣ stackPointer.toNat
  floor_le : o.stackFloor ≤ stackPointer.toNat
  pointer_le : stackPointer.toNat ≤ stack.stop.toNat
  stop_le : stack.stop.toNat ≤ random.toNat
  random_le : random.toNat + 16 ≤ o.stackEnd

namespace Memory.Owns

variable {m : Memory} {floor top low : Nat} (h : m.Owns floor top) (hlow : floor ≤ low)

include h hlow

/-- A text on the stack is read back. -/
theorem hasText {a : Address} {text : String} (hzero : '\x00' ∉ text.toList)
    (ha : m.view.Lies low top a (terminated text)) : m.HasText low top a text := by
  have htop := h.top_lt
  have hlast := ha.le_top
  refine ⟨?_, ha.low_le, hlast⟩
  have hlength : (Utf8.encode text).length < addressLimit := by
    rw [terminated, List.length_append, List.length_singleton] at hlast
    omega
  have hread := h.readString_eq_ok (Nat.le_trans hlow ha.low_le) hlast
    (Utf8.zero_notMem_encode hzero) ha.holds hlength
  rw [Address.ofNat_toNat] at hread
  rw [text?, hread]
  rfl

/-- All texts on the stack are read back. -/
theorem forall₂_hasText {addresses : List Address} {texts : List String}
    (hzero : ∀ text ∈ texts, '\x00' ∉ text.toList)
    (hlies : List.Forall₂ (fun a text ↦ m.view.Lies low top a (terminated text))
      addresses texts) :
    List.Forall₂ (m.HasText low top) addresses texts := by
  induction hlies with
  | nil => exact .nil
  | cons ha _ ih =>
    obtain ⟨htext, htexts⟩ := List.forall_mem_cons.mp hzero
    exact .cons (h.hasText hlow htext ha) (ih htexts)

end Memory.Owns

namespace Elf.Loading

variable {m m₁ m' : Memory} {i : Image} {o : LoadOptions} {bias : Nat} {stops : List Nat}

/-- The entries of the auxiliary vector that an image gives do not end it. -/
theorem key_ne_null (i : Image) (o : LoadOptions) (programHeaders entry : Address) :
    ∀ e ∈ auxiliary i o programHeaders entry, e.key ≠ .null := by
  simp [auxiliary]

/-- Memory stays well formed while the parts of an image are placed. -/
theorem wellFormed_of_placed (hm : m.WellFormed) (h : i.Placed o m bias stops m₁) :
    m₁.WellFormed := by
  have hkeeps : Keeps Memory.Yields
      (i.loads.mapM (placeHeader i o.programPath bias)) m :=
    keeps_mapM fun header _ _ ↦ keeps_placeHeader i _ bias header
  exact (hkeeps.of_ends h.ends hm).wellFormed

/-- The path of the program is one of the texts that are given. -/
theorem zero_notMem_programPath
    (htexts : ∀ text ∈ o.arguments ++ o.environment ++ o.path.toList, '\x00' ∉ text.toList) :
    '\x00' ∉ o.programPath.toList := by
  rw [LoadOptions.programPath]
  cases hpath : o.path with
  | some path =>
    rw [hpath] at htexts
    exact htexts path (List.mem_append_right _ (List.mem_singleton.mpr rfl))
  | none =>
    cases harguments : o.arguments with
    | nil => decide
    | cons first rest =>
      rw [harguments] at htexts
      exact htexts first (List.mem_append_left _ (List.mem_append_left _ List.mem_cons_self))

/-- A program reads on a stack that is loaded what the options say. -/
theorem StackLoaded.exists_conveys
    (htexts : ∀ text ∈ o.arguments ++ o.environment ++ o.path.toList, '\x00' ∉ text.toList)
    {loaded : LoadedImage} {pointer : Address}
    (h : StackLoaded o (i.stackContents o loaded) m pointer m') :
    ∃ stack platform random path, ProgramStack.Conveys stack m' pointer o
      (auxiliary i o loaded.programHeaders loaded.entry) platform random path := by
  obtain ⟨s, hplace⟩ := h.inPlace
  have hread := hplace.programStack?_eq h.owns h.floor_le (key_ne_null i o _ _)
  rw [Address.ofNat_toNat] at hread
  have hstop : (BitVec.ofNat 64
      (pointer.toNat + 8 * (i.stackContents o loaded).blockLength)).toNat =
      pointer.toNat + 8 * (i.stackContents o loaded).blockLength :=
    h.owns.toNat_ofNat (Nat.le_trans hplace.path.low_le (Nat.le_of_add_right_le hplace.path.le_top))
  have hlow : o.stackFloor ≤ pointer.toNat + 8 * (i.stackContents o loaded).blockLength :=
    Nat.le_trans h.floor_le (Nat.le_add_right _ _)
  obtain ⟨hgiven, _⟩ := List.forall_mem_append.mp htexts
  obtain ⟨harguments, henvironment⟩ := List.forall_mem_append.mp hgiven
  refine ⟨_, s.platform, s.random, s.path, hread, rfl, ?_, ?_, rfl, ?_, ?_, ?_, hplace.aligned,
    h.floor_le, ?_, ?_, ?_⟩
  · rw [hstop]
    exact h.owns.forall₂_hasText hlow harguments hplace.arguments
  · rw [hstop]
    exact h.owns.forall₂_hasText hlow henvironment hplace.environment
  · rw [hstop]
    exact h.owns.hasText hlow (by decide) hplace.platform
  · have hrandom := h.owns.read_eq_ok (Nat.le_trans hlow hplace.random.low_le)
      hplace.random.le_top hplace.random.holds
    rw [Address.ofNat_toNat, Vector.length_toList] at hrandom
    exact hrandom
  · rw [hstop]
    exact h.owns.hasText hlow (zero_notMem_programPath htexts) hplace.path
  · rw [hstop]
    exact Nat.le_add_right _ _
  · rw [hstop]
    exact hplace.random.low_le
  · have hlast := hplace.random.le_top
    rwa [Vector.length_toList] at hlast

/-- Whether the contents fit decides what comes of a load, once the parts of the image are placed
and the pages of the stack are free. -/
theorem load_of_placed {content : List UInt8} (hi : Image.ofBytes? content = some i)
    (hm : m.WellFormed) (hplaced : i.Placed o m bias stops m₁)
    (hfree : ∀ number : Nat, o.stackPages.contains number → m₁.space.pages[number]? = none)
    (hrange : o.InRange) :
    ((i.stackContents o (i.loaded bias stops 0)).size ≤ roundUpToPage o.stackSize →
      ∃ loaded m', m.load content o = (.ok loaded, m')) ∧
    (roundUpToPage o.stackSize < (i.stackContents o (i.loaded bias stops 0)).size →
      ∃ m', m.load content o = (.error (.stackTooSmall (roundUpToPage o.stackSize)), m')) := by
  have hload : m.load content o = (image i o).run.run m := by
    rw [Memory.load, bytes]
    simp only [hi]
  have hm₁ := wellFormed_of_placed hm hplaced
  obtain ⟨m₂, hmap⟩ := hrange.exists_mapPages fun number hnumber ↦
    Option.map_eq_none_iff.mpr (hfree number hnumber)
  rw [hload, run_image hplaced]
  constructor
  · intro hroom
    obtain ⟨pointer, m', hends, _⟩ := exists_stackLoaded hm₁ hrange hmap hroom
    exact ⟨i.loaded bias stops pointer, m', hends.run_bind⟩
  · intro hroom
    obtain ⟨m', hrun⟩ := run_mapStack_of_lt hm₁ hrange hmap hroom
    exact ⟨m', run_bind_of_error hrun⟩

end Elf.Loading

/-- Options with a stack of one page and a few texts. -/
def Elf.fewTexts : LoadOptions :=
  { smallStack with arguments := ["a", "bc"], environment := ["X=1"] }

/-- Options with more addresses in the environment than a stack of one page holds. -/
def Elf.manyTexts : LoadOptions :=
  { fewTexts with environment := List.replicate 600 "" }

namespace World

variable (windows : Nat → MapWindow) (history : List Action) (k : Nat)

/-- The stack that a program starts with, in any world and for texts without the character of code
zero.

A program that is loaded reads from its stack pointer the arguments, the environment and the
auxiliary vector that it was loaded with (`ProgramStack.Conveys`), and no byte outside of its stack
has changed since the parts of its image were placed.

Once these parts are placed, with the pages of a stack in range still free, the load fails because
the stack is too small just in case the contents take more bytes than it has, and succeeds
otherwise. -/
theorem initialStack_of_load {content : List UInt8} {o : LoadOptions}
    (htexts : ∀ text ∈ o.arguments ++ o.environment ++ o.path.toList, '\x00' ∉ text.toList) :
    (∀ loaded m', (((start windows).after history).memory k).load content o = (.ok loaded, m') →
      ∃ i bias stops m₁ stack platform random path,
        Image.ofBytes? content = some i ∧
        i.Placed o (((start windows).after history).memory k) bias stops m₁ ∧
        loaded = i.loaded bias stops loaded.stackPointer ∧
        (∀ number : Nat, o.stackPages.contains number → m₁.space.pages[number]? = none) ∧
        ProgramStack.Conveys stack m' loaded.stackPointer o
          (Loading.auxiliary i o loaded.programHeaders loaded.entry) platform random path ∧
        ∀ a : Address, a.toNat < o.stackFloor ∨ o.stackEnd ≤ a.toNat →
          m'.byte a = m₁.byte a) ∧
    ∀ i bias stops m₁, Image.ofBytes? content = some i →
      i.Placed o (((start windows).after history).memory k) bias stops m₁ →
      (∀ number : Nat, o.stackPages.contains number → m₁.space.pages[number]? = none) →
      o.InRange →
        ((∃ size m', (((start windows).after history).memory k).load content o =
            (.error (.stackTooSmall size), m')) ↔
          roundUpToPage o.stackSize < (i.stackContents o (i.loaded bias stops 0)).size) ∧
        ((∃ loaded m', (((start windows).after history).memory k).load content o =
            (.ok loaded, m')) ↔
          (i.stackContents o (i.loaded bias stops 0)).size ≤ roundUpToPage o.stackSize) := by
  have hm := (wellFormed_after windows history).memory k
  constructor
  · intro loaded m' hload
    have hends : Ends (Loading.bytes content o)
      (((start windows).after history).memory k) loaded m' := hload
    obtain ⟨i, hi, himage⟩ := Loading.exists_image_of_ends hends
    obtain ⟨bias, stops, m₁, pointer, hplaced, hstack, rfl⟩ := Loading.ends_image_iff.mp himage
    obtain ⟨hfree, hloaded⟩ :=
      Loading.stackLoaded_of_ends (Loading.wellFormed_of_placed hm hplaced) hstack
    obtain ⟨stack, platform, random, path, hconveys⟩ := hloaded.exists_conveys htexts
    refine ⟨i, bias, stops, m₁, stack, platform, random, path, hi, hplaced, rfl,
      fun number hnumber ↦ Option.map_eq_none_iff.mp (hfree number hnumber), hconveys,
      fun a ha ↦ ?_⟩
    rw [Memory.byte_eq_view, Memory.byte_eq_view]
    exact hloaded.byte _ ha
  · intro i bias stops m₁ hi hplaced hfree hrange
    obtain ⟨hfits, hfull⟩ := Loading.load_of_placed hi hm hplaced hfree hrange
    rcases Nat.lt_or_ge (roundUpToPage o.stackSize)
      (i.stackContents o (i.loaded bias stops 0)).size with hroom | hroom
    · obtain ⟨m', hload⟩ := hfull hroom
      rw [hload]
      refine ⟨⟨fun _ ↦ hroom, fun _ ↦ ⟨_, m', rfl⟩⟩, ?_, fun h ↦ absurd hroom (Nat.not_lt_of_le h)⟩
      rintro ⟨_, _, h⟩
      exact nomatch h
    · obtain ⟨loaded, m', hload⟩ := hfits hroom
      rw [hload]
      refine ⟨⟨?_, fun h ↦ absurd h (Nat.not_lt_of_le hroom)⟩, fun _ ↦ hroom,
        fun _ ↦ ⟨loaded, m', rfl⟩⟩
      rintro ⟨_, _, h⟩
      exact nomatch h

theorem initialStack_of_load_fewTexts :
    ∃ loaded m' stack, (((start fun _ ↦ {}).after []).memory 0).load ascendingImage fewTexts =
        (.ok loaded, m') ∧
      m'.programStack? loaded.stackPointer = some stack ∧ stack.count = 2 ∧
      List.Forall₂ (m'.HasText stack.stop.toNat fewTexts.stackEnd) stack.arguments ["a", "bc"] ∧
      List.Forall₂ (m'.HasText stack.stop.toNat fewTexts.stackEnd) stack.environment ["X=1"] ∧
      ∃ size m'', (((start fun _ ↦ {}).after []).memory 0).load ascendingImage manyTexts =
        (.error (.stackTooSmall size), m'') := by
  have haccepted : ∃ loaded m', (((start fun _ ↦ {}).after []).memory 0).load ascendingImage
      fewTexts = (.ok loaded, m') := Memory.exists_load_eq_ok (by decide +kernel)
  obtain ⟨loaded, m', hload⟩ := haccepted
  obtain ⟨hread, _⟩ :=
    @initialStack_of_load (fun _ ↦ {}) [] 0 ascendingImage fewTexts (by decide)
  obtain ⟨i, bias, stops, m₁, stack, platform, random, path, hi, hplaced, _, hfree, hconveys, _⟩ :=
    hread loaded m' hload
  refine ⟨loaded, m', stack, hload, hconveys.stack_eq, hconveys.count_eq, hconveys.arguments,
    hconveys.environment, ?_⟩
  -- the parts of the image are placed in the same way whatever the environment is
  have hplaced' : i.Placed manyTexts _ bias stops m₁ :=
    ⟨hplaced.static, hplaced.bias_eq, hplaced.loads, hplaced.ends⟩
  have hcount : 600 ≤ (i.stackContents manyTexts (i.loaded bias stops 0)).environment.length :=
    Nat.le_of_eq List.length_replicate.symm
  obtain ⟨_, hfits⟩ :=
    @initialStack_of_load (fun _ ↦ {}) [] 0 ascendingImage manyTexts (by decide +kernel)
  refine (hfits i bias stops m₁ hi hplaced' hfree ⟨by decide, by decide⟩).1.mpr ?_
  have hsize : roundUpToPage manyTexts.stackSize = 4096 := by decide
  rw [hsize, StackContents.size, StackContents.blockLength]
  omega

end World

end LongMode
