import LongMode.Decode.Decoder
import LongMode.Proofs.Decode.Reader

/-!
What the opcode maps give. `Entry.Gives` says of an entry that every mnemonic it may stand for has,
with its operand forms, a property; the words that the maps are written with keep it.

Every row of every map is visited once, with a property that has two parts (`Orderly`). The
instructions of control, which are branches other than those on flags, calls, returns and the end of
a stack frame, are in the one-byte map; in 64-bit code they have eleven opcodes there
(`controlOpcodes`). The two exchanges, which write both of their operands, have only operand forms
that name general registers or memory. `all_readOpcode_of_orderly` carries this to all that is read
after an opcode.
-/

set_option autoImplicit false
set_option relaxedAutoImplicit false

namespace LongMode

/-- Whether a mnemonic is one of control: of a branch other than one on flags, a call, a return, or
the end of a stack frame. -/
def Mnemonic.isControl : Mnemonic → Bool
  | jmp | call | ret | loop _ | jumpIfCounterZero _ | leave => true
  | _ => false

namespace Decode

/-- Whether a form that names a register names a general one. -/
def Form.isGeneral : Form → Bool
  | .rm _ | .rmOr _ _ | .reg _ | .opcodeReg _ | .accumulator _ => true
  | _ => false

variable {P : Mnemonic → List Form → Prop}

/-- The mnemonic of a specification, if there is one, has a property with its forms. -/
def Spec.Gives (P : Mnemonic → List Form → Prop) (o : Option Spec) : Prop :=
  ∀ s, o = some s → P s.mnemonic s.forms

/-- Every mnemonic that an entry can stand for has a property with its forms. -/
def Entry.Gives (P : Mnemonic → List Form → Prop) : Entry → Prop
  | .invalid => True
  | .plain s => P s.mnemonic s.forms
  | .modRm select => ∀ r, Spec.Gives P (select r)

namespace Opcode

open Entry

/-! ### The words that the maps are written with -/

@[simp] theorem gives_invalid : Entry.invalid.Gives P :=
  True.intro

@[simp] theorem gives_plainSpec (s : Spec) : (Entry.plain s).Gives P ↔ P s.mnemonic s.forms :=
  Iff.rfl

@[simp] theorem gives_modRm (select : ModRm → Option Spec) :
    (Entry.modRm select).Gives P ↔ ∀ r, Spec.Gives P (select r) :=
  Iff.rfl

@[simp] theorem specGives_none : Spec.Gives P none :=
  fun _ h ↦ (nomatch h)

@[simp] theorem specGives_some (s : Spec) : Spec.Gives P (some s) ↔ P s.mnemonic s.forms :=
  ⟨fun h ↦ h s rfl, fun h _ hs ↦ Option.some.inj hs ▸ h⟩

@[simp] theorem specGives_basic (m : Mnemonic) (forms : List Form) :
    Spec.Gives P (basic m forms) ↔ P m forms :=
  specGives_some _

@[simp] theorem specGives_other (name : String) (forms : List Form) :
    Spec.Gives P (other name forms) ↔ P (.other name) forms :=
  specGives_some _

@[simp] theorem specGives_ite {p : Prop} [Decidable p] (o o' : Option Spec) :
    Spec.Gives P (if p then o else o') ↔ (p → Spec.Gives P o) ∧ (¬p → Spec.Gives P o') := by
  by_cases h : p <;> simp [h]

@[simp] theorem gives_ite {p : Prop} [Decidable p] (entry entry' : Entry) :
    (if p then entry else entry').Gives P ↔ (p → entry.Gives P) ∧ (¬p → entry'.Gives P) := by
  by_cases h : p <;> simp [h]

@[simp] theorem gives_plain (m : Mnemonic) (forms : List Form) :
    (plain m forms).Gives P ↔ P m forms :=
  Iff.rfl

@[simp] theorem gives_plainOther (name : String) (forms : List Form) :
    (plainOther name forms).Gives P ↔ P (.other name) forms :=
  Iff.rfl

@[simp] theorem gives_any (m : Mnemonic) (forms : List Form) :
    (any m forms).Gives P ↔ P m forms :=
  ⟨fun h ↦ h ⟨0, 0, 0⟩ _ rfl, fun h _ ↦ (specGives_some _).mpr h⟩

@[simp] theorem gives_lockable (m : Mnemonic) (forms : List Form) :
    (lockable m forms).Gives P ↔ P m forms :=
  ⟨fun h ↦ h ⟨0, 0, 0⟩ _ rfl, fun h _ ↦ (specGives_some _).mpr h⟩

@[simp] theorem gives_memoryOr (memory register : Option Spec) :
    (memoryOr memory register).Gives P ↔ Spec.Gives P memory ∧ Spec.Gives P register := by
  simp only [memoryOr, gives_modRm, specGives_ite]
  constructor
  · exact fun h ↦ ⟨(h ⟨0, 0, 0⟩).1 rfl, (h ⟨3, 0, 0⟩).2 (by decide)⟩
  · exact fun h _ ↦ ⟨fun _ ↦ h.1, fun _ ↦ h.2⟩

@[simp] theorem gives_memoryOnly (m : Mnemonic) (forms : List Form) :
    (memoryOnly m forms).Gives P ↔ P m forms := by
  change (memoryOr _ none).Gives P ↔ _
  simp

@[simp] theorem gives_registerOnly (m : Mnemonic) (forms : List Form) :
    (registerOnly m forms).Gives P ↔ P m forms := by
  simp only [registerOnly, gives_modRm, specGives_ite, specGives_some, specGives_none]
  exact ⟨fun h ↦ (h ⟨3, 0, 0⟩).1 rfl, fun h _ ↦ ⟨fun _ ↦ h, fun _ ↦ True.intro⟩⟩

@[simp] theorem gives_not64 (c : Context) (entry : Entry) :
    (not64 c entry).Gives P ↔ (c.is64 = false → entry.Gives P) := by
  simp [not64]

@[simp] theorem gives_only64 (c : Context) (entry : Entry) :
    (only64 c entry).Gives P ↔ (c.is64 → entry.Gives P) := by
  simp [only64]

@[simp] theorem gives_ownRepeat (entry : Entry) : (ownRepeat entry).Gives P ↔ entry.Gives P := by
  cases entry with
  | invalid => exact Iff.rfl
  | plain s => exact Iff.rfl
  | modRm select =>
    refine forall_congr' fun r ↦ ?_
    cases hselect : select r with
    | none => simp [hselect]
    | some s => simp [hselect]

@[simp] theorem gives_byPrefix (c : Context) (none' p66 pF3 pF2 : Entry) :
    (byPrefix c none' p66 pF3 pF2).Gives P ↔
      (c.selector = .none → none'.Gives P) ∧ (c.selector = .p66 → p66.Gives P) ∧
        (c.selector = .pF3 → pF3.Gives P) ∧ (c.selector = .pF2 → pF2.Gives P) := by
  rw [byPrefix]
  cases c.selector <;> simp

@[simp] theorem gives_by66 (c : Context) (none' p66 : Entry) :
    (by66 c none' p66).Gives P ↔
      (c.selector = .none → none'.Gives P) ∧ (c.selector = .p66 → p66.Gives P) := by
  simp [by66]

@[simp] theorem gives_unprefixed (c : Context) (entry : Entry) :
    (unprefixed c entry).Gives P ↔ (c.selector = .none → entry.Gives P) := by
  simp [unprefixed]

@[simp] theorem gives_only66 (c : Context) (entry : Entry) :
    (only66 c entry).Gives P ↔ (c.selector = .p66 → entry.Gives P) := by
  simp [only66]

end Opcode

/-- What the maps keep to: a mnemonic of control stands only where `control` holds, and an exchange
names only general registers or memory. -/
def Orderly (control : Prop) (m : Mnemonic) (forms : List Form) : Prop :=
  (m.isControl → control) ∧ (m = .xchg ∨ m = .xadd → ∀ form ∈ forms, form.isGeneral)

namespace Opcode

variable {control : Prop}

attribute [local simp] Orderly Mnemonic.isControl

/-! ### The one-byte map -/

/-- The opcodes of the one-byte map that stand for instructions of control in 64-bit code. The last
one does so with some ModRM bytes. -/
def controlOpcodes : List Nat :=
  [0xc2, 0xc3, 0xc9, 0xe0, 0xe1, 0xe2, 0xe3, 0xe8, 0xe9, 0xeb, 0xff]

theorem orderly_arithmetic (n : Nat) (forms : List Form) :
    Orderly control (arithmetic n) forms := by
  unfold arithmetic
  split <;> simp

theorem orderly_rows0To3 (c : Context) (op : Nat) :
    (rows0To3 c op).Gives (Orderly control) := by
  unfold rows0To3
  split <;> simp only [gives_ite, gives_any, gives_lockable, gives_plain, gives_not64,
    orderly_arithmetic, implies_true, and_self]
  intro _
  split <;> simp [pushSegment, popSegment, pushEntry, popEntry, stackSpec]

theorem orderly_rows4To5 (c : Context) (op : Nat) : (rows4To5 c op).Gives (Orderly control) := by
  simp [rows4To5, pushEntry, popEntry, stackSpec]

theorem orderly_row6 (c : Context) (op : Nat) : (row6 c op).Gives (Orderly control) := by
  unfold row6
  split <;> simp [portString, pushEntry, stackSpec]

theorem orderly_immediateGroup (destination constant : Form) :
    (immediateGroup destination constant).Gives (Orderly control) :=
  fun r ↦ (specGives_some _).mpr (orderly_arithmetic r.reg _)

theorem orderly_row8 (c : Context) (op : Nat) : (row8 c op).Gives (Orderly control) := by
  unfold row8
  split <;> simp [orderly_immediateGroup, stackSpec, Form.isGeneral]

theorem orderly_row9 (c : Context) (op : Nat) :
    (row9 c op).Gives (Orderly (c.is64 → op ∈ controlOpcodes)) := by
  unfold row9
  split <;> simp +contextual [stackSpec, Form.isGeneral]

theorem orderly_rowA (c : Context) (op : Nat) : (rowA c op).Gives (Orderly control) := by
  unfold rowA
  split <;> simp [stringEntry]

theorem orderly_shiftGroup (destination count : Form) :
    (shiftGroup destination count).Gives (Orderly control) := by
  intro r
  simp only [shiftOp]
  split <;> simp

theorem orderly_rowC (c : Context) (op : Nat) :
    (rowC c op).Gives (Orderly (c.is64 → op ∈ controlOpcodes)) := by
  unfold rowC
  split <;> simp [controlOpcodes, orderly_shiftGroup, nearReturn, farReturn, loadFar]

theorem orderly_rowD (c : Context) (op : Nat) : (rowD c op).Gives (Orderly control) := by
  unfold rowD
  split <;> simp [orderly_shiftGroup]

theorem orderly_rowE (c : Context) (op : Nat) :
    (rowE c op).Gives (Orderly (c.is64 → op ∈ controlOpcodes)) := by
  unfold rowE
  split <;> simp +contextual [controlOpcodes, countedBranch, jumpEntry]
  unfold counterZero
  split <;> simp

theorem orderly_unaryGroup (operand constant : Form) :
    (unaryGroup operand constant).Gives (Orderly control) := by
  intro r
  dsimp only
  split <;> simp

theorem orderly_stepSpec (operand : Form) (r : ModRm) :
    Spec.Gives (Orderly control) (stepSpec operand r) := by
  unfold stepSpec
  split <;> simp

theorem orderly_indirectGroup (c : Context) (r : ModRm) :
    Spec.Gives (Orderly (c.is64 → 0xff ∈ controlOpcodes)) (indirectGroup c r) := by
  unfold indirectGroup
  split <;> simp [controlOpcodes, stackSpec, orderly_stepSpec]

theorem orderly_rowF (c : Context) (op : Nat) :
    (rowF c op).Gives (Orderly (c.is64 → op ∈ controlOpcodes)) := by
  unfold rowF
  split <;> simp [orderly_unaryGroup, orderly_stepSpec, orderly_indirectGroup]

/-- In 64-bit code no other opcode of the one-byte map stands for an instruction of control. -/
theorem orderly_oneByte (c : Context) (op : Nat) :
    (oneByte c op).Gives (Orderly (c.is64 → op ∈ controlOpcodes)) := by
  simp [oneByte, orderly_rows0To3, orderly_rows4To5, orderly_row6, jccEntry, orderly_row8,
    orderly_row9, orderly_rowA, orderly_rowC, orderly_rowD, orderly_rowE, orderly_rowF]

/-! ### The two-byte map -/

theorem orderly_descriptorGroup (c : Context) : (descriptorGroup c).Gives (Orderly control) := by
  intro r
  dsimp only
  split <;> simp

theorem orderly_systemBare (c : Context) (r : ModRm) :
    Spec.Gives (Orderly control) (systemBare c r) := by
  unfold systemBare
  split <;> simp [bare, bareRepeated, eventReturn]
  -- what is left depends on the selecting prefix, too
  all_goals split <;> simp

theorem orderly_systemGroup (c : Context) : (systemGroup c).Gives (Orderly control) := by
  intro r
  dsimp only
  split <;> simp [orderly_systemBare]

theorem orderly_escape0 (c : Context) (op : Nat) : (escape0 c op).Gives (Orderly control) := by
  unfold escape0
  split <;> simp [orderly_descriptorGroup, orderly_systemGroup, reservedNop]
  intro r _
  split <;> simp

theorem orderly_escape1Low (c : Context) (op : Nat) :
    (escape1Low c op).Gives (Orderly control) := by
  unfold escape1Low
  split <;> simp [packedPair]

theorem orderly_prefetchSpec (r : ModRm) : Spec.Gives (Orderly control) (prefetchSpec r) := by
  simp only [prefetchSpec, reservedNop, specGives_ite]
  refine ⟨fun _ ↦ (specGives_other _ _).mpr (by simp), fun _ ↦ ?_⟩
  split <;> simp

theorem orderly_landingSpec (c : Context) (r : ModRm) :
    Spec.Gives (Orderly control) (landingSpec c r) := by
  simp only [landingSpec, reservedNop, specGives_ite]
  refine ⟨fun _ ↦ (specGives_other _ _).mpr (by simp), fun _ ↦ ?_⟩
  split <;> simp [other, basic]

theorem orderly_escape1High (c : Context) (op : Nat) :
    (escape1High c op).Gives (Orderly control) := by
  unfold escape1High
  split <;> simp [reservedNop, demoteSpec, orderly_prefetchSpec, orderly_landingSpec]

theorem orderly_escape2 (c : Context) (op : Nat) : (escape2 c op).Gives (Orderly control) := by
  unfold escape2
  split <;> simp [controlMove]

theorem orderly_escape3 (c : Context) (op : Nat) : (escape3 c op).Gives (Orderly control) := by
  unfold escape3
  split <;> simp

theorem orderly_escape5 (c : Context) (op : Nat) : (escape5 c op).Gives (Orderly control) := by
  unfold escape5
  split <;> simp [floatEntry, packedPair]

theorem orderly_packedEntry (c : Context) (op : PackedOp) (bytes : Nat) :
    (packedEntry c op bytes).Gives (Orderly control) := by
  simp [packedEntry, bothVectors]

theorem orderly_bothVectorsOther (c : Context) (name : String) :
    (bothVectorsOther c name).Gives (Orderly control) := by
  simp [bothVectorsOther, bothVectors]

theorem orderly_escape6 (c : Context) (op : Nat) : (escape6 c op).Gives (Orderly control) := by
  unfold escape6
  split <;> simp [orderly_packedEntry, orderly_bothVectorsOther]
  unfold wideMove
  by_cases hwide : c.dwordOrQword = .qword <;> simp [hwide]

theorem orderly_constantShiftGroup (c : Context) (width : Width) :
    (constantShiftGroup c width).Gives (Orderly control) := by
  have hshift (op : LaneShift) : Spec.Gives (Orderly control) (constantShift c op width) := by
    unfold constantShift
    split <;> simp
  intro r
  simp only [specGives_ite]
  refine ⟨fun _ ↦ specGives_none, fun _ ↦ ?_⟩
  split <;> simp [hshift, constantByteShift]

theorem orderly_escape7 (c : Context) (op : Nat) : (escape7 c op).Gives (Orderly control) := by
  unfold escape7
  split <;> simp [orderly_packedEntry, orderly_constantShiftGroup]
  unfold wideMove
  by_cases hwide : c.dwordOrQword = .qword <;> simp [hwide]

theorem orderly_stateMemory (c : Context) (r : ModRm) :
    Spec.Gives (Orderly control) (stateMemory c r) := by
  unfold stateMemory
  split <;> split <;> simp [traceWrite]

theorem orderly_stateRegister (c : Context) (r : ModRm) :
    Spec.Gives (Orderly control) (stateRegister c r) := by
  unfold stateRegister
  split <;> simp [traceWrite, repeatedRegister]

theorem orderly_bareNamed (name : Option String) :
    Spec.Gives (Orderly control) (name.bind bare) := by
  cases name <;> simp [bare]

theorem orderly_escapeA (c : Context) (op : Nat) : (escapeA c op).Gives (Orderly control) := by
  unfold escapeA
  split <;> simp [pushSegment, popSegment, pushEntry, popEntry, stackSpec, doubleShiftEntry,
    engineHash, engineCipher, orderly_bareNamed, orderly_stateMemory, orderly_stateRegister]

theorem orderly_bitGroup : bitGroup.Gives (Orderly control) := by
  intro r
  dsimp only
  split <;> simp

theorem orderly_escapeB (c : Context) (op : Nat) : (escapeB c op).Gives (Orderly control) := by
  unfold escapeB
  split <;> simp [loadFar, orderly_bitGroup]

theorem orderly_exchangeGroup (c : Context) (r : ModRm) :
    Spec.Gives (Orderly control) (exchangeGroup c r) := by
  simp only [exchangeGroup, specGives_ite]
  constructor
  · intro _
    split
    · split <;> simp
    · simp
    · simp
    · simp
    · split <;> simp
    · simp
    · simp
  · intro _
    split <;> simp [repeatedRegister]

theorem orderly_escapeC (c : Context) (op : Nat) : (escapeC c op).Gives (Orderly control) := by
  unfold escapeC
  split <;> simp [Form.isGeneral, orderly_exchangeGroup]

theorem orderly_escapeD (c : Context) (op : Nat) : (escapeD c op).Gives (Orderly control) := by
  unfold escapeD
  split <;> simp [orderly_packedEntry, orderly_bothVectorsOther, bothVectors]

theorem orderly_escapeE (c : Context) (op : Nat) : (escapeE c op).Gives (Orderly control) := by
  unfold escapeE
  split <;> simp [orderly_packedEntry, orderly_bothVectorsOther, bothVectors]

theorem orderly_escapeF (c : Context) (op : Nat) : (escapeF c op).Gives (Orderly control) := by
  unfold escapeF
  split <;> simp [orderly_packedEntry, orderly_bothVectorsOther, bothVectors, maskedStore]

theorem orderly_twoByte (c : Context) (op : Nat) : (twoByte c op).Gives (Orderly control) := by
  unfold twoByte
  split
  · exact orderly_escape0 c op
  · simp [orderly_escape1Low, orderly_escape1High]
  · exact orderly_escape2 c op
  · exact orderly_escape3 c op
  · simp
  · exact orderly_escape5 c op
  · exact orderly_escape6 c op
  · exact orderly_escape7 c op
  · simp [jccEntry]
  · simp
  · exact orderly_escapeA c op
  · exact orderly_escapeB c op
  · exact orderly_escapeC c op
  · exact orderly_escapeD c op
  · exact orderly_escapeE c op
  · exact orderly_escapeF c op

/-! ### The other maps -/

theorem orderly_keyLocker (op : Nat) : (keyLocker op).Gives (Orderly control) := by
  unfold keyLocker
  split <;> simp
  intro r _
  split <;> simp

theorem orderly_rowF38 (c : Context) (op : Nat) : (rowF38 c op).Gives (Orderly control) := by
  unfold rowF38
  split <;> simp [sized]

theorem orderly_map38 (c : Context) (op : Nat) : (map38 c op).Gives (Orderly control) := by
  unfold map38
  split
  · exact orderly_bothVectorsOther c _
  · simp [wholeVector38, orderly_keyLocker]
  · simp
  · split <;> simp [orderly_keyLocker, orderly_rowF38]
    intro _
    split <;> simp

theorem orderly_map3A (c : Context) (op : Nat) : (map3A c op).Gives (Orderly control) := by
  unfold map3A
  split
  · simp
  · dsimp only
    split <;> simp [sized]

theorem orderly_stackFromMemory (stem : String) (bytes : Nat) (r : ModRm) :
    Spec.Gives (Orderly control) (stackFromMemory stem bytes r) := by
  unfold stackFromMemory
  split <;> simp

theorem orderly_stackMemory (rows : List (String × Nat)) (r : ModRm) :
    Spec.Gives (Orderly control) (stackMemory rows r) := by
  unfold stackMemory
  split <;> simp

theorem orderly_stackBare (names : List String) (r : ModRm) :
    Spec.Gives (Orderly control) (stackBare names r) := by
  unfold stackBare
  split <;> simp

theorem orderly_stackMemoryForm (c : Context) (op : Nat) (r : ModRm) :
    Spec.Gives (Orderly control) (stackMemoryForm c op r) := by
  unfold stackMemoryForm
  dsimp only
  split <;> simp [orderly_stackFromMemory, orderly_stackMemory]

theorem orderly_stackFunctions (r : ModRm) : Spec.Gives (Orderly control) (stackFunctions r) := by
  unfold stackFunctions
  split <;> simp [orderly_stackBare]

theorem orderly_intoTop (name : String) : Spec.Gives (Orderly control) (intoTop name) := by
  simp [intoTop]

theorem orderly_stackRegisterForm (op : Nat) (r : ModRm) :
    Spec.Gives (Orderly control) (stackRegisterForm op r) := by
  have hnamed (name : Option String) :
      Spec.Gives (Orderly control) (name.bind fun name ↦ intoTop ("F" ++ name)) := by
    cases name <;> simp [orderly_intoTop]
  unfold stackRegisterForm
  split <;> simp [hnamed, orderly_intoTop, orderly_stackBare,
    orderly_stackFunctions, oneStack, fromTop]

theorem orderly_floatingPoint (c : Context) (op : Nat) :
    (floatingPoint c op).Gives (Orderly control) := by
  simp [floatingPoint, orderly_stackMemoryForm, orderly_stackRegisterForm]

end Opcode

/-! ### Reading -/

open Reader

theorem Spec.all_read_mnemonic (s : Spec) (c : Context) (opcode : Nat)
    (place : Option (ModRm × Place)) :
    (s.read c opcode place).All fun ofLength ↦ ∀ n, (ofLength n).mnemonic = s.mnemonic := by
  refine .after _ fun drafts ↦ ?_
  split
  · exact True.intro
  · exact fun n ↦ rfl

/-- Whatever a specification with the property `P` is read into has the property `Q`. -/
def AllRead (c : Context) (P : Mnemonic → List Form → Prop) (Q : Finding → Prop) : Prop :=
  ∀ s : Spec, P s.mnemonic s.forms → ∀ (opcode : Nat) (place : Option (ModRm × Place)),
    (s.read c opcode place).All fun ofLength ↦ Q (.instruction ofLength)

section

variable {c : Context} {Q : Finding → Prop}

theorem all_readEntry_of_gives {entry : Entry} (hentry : entry.Gives P) (hread : AllRead c P Q)
    (opcode : Nat) (modRmByte : Option Nat) : (readEntry c opcode entry modRmByte).All Q := by
  have hfound : (entry.read c opcode modRmByte).All fun ofLength ↦ Q (.instruction ofLength) := by
    cases entry with
    | invalid => exact True.intro
    | plain s => exact hread s hentry opcode none
    | modRm select =>
      have hselect (b : Nat) : ((Entry.modRm select).read c opcode (some b)).All
          fun ofLength ↦ Q (.instruction ofLength) := by
        dsimp only [Entry.read]
        refine .after (pure b) fun b ↦ ?_
        cases hspec : select (ModRm.ofByte b) with
        | none => exact True.intro
        | some s => exact .after _ fun place ↦ hread s (hentry _ s hspec) opcode _
      cases modRmByte with
      | some b => exact hselect b
      | none => exact fun b ↦ hselect b.toNat
  exact hfound.bind fun _ h ↦ h

theorem all_readShared_of_orderly {op : Nat} (hextended : Q .extended)
    (hread : AllRead c (Orderly (c.is64 → op ∈ Opcode.controlOpcodes)) Q) (plain : Nat → Bool)
    (extended : Nat → Reader Unit) : (readShared c op plain extended).All Q := by
  refine .after _ fun b ↦ ?_
  split
  · exact all_readEntry_of_gives (Opcode.orderly_oneByte c op) hread op _
  · exact .after _ fun _ ↦ hextended

theorem all_readEscaped_of_orderly {control : Prop} (hextended : Q .extended)
    (hread : AllRead c (Orderly control) Q) : (readEscaped c).All Q := by
  refine .after _ fun op ↦ ?_
  split
  · exact .after _ fun _ ↦ hextended
  · exact .after _ fun op ↦ all_readEntry_of_gives (Opcode.orderly_map38 c op) hread op _
  · exact .after _ fun op ↦ all_readEntry_of_gives (Opcode.orderly_map3A c op) hread op _
  · exact all_readEntry_of_gives (Opcode.orderly_twoByte c op) hread op _

/-- What is read after an opcode is what a specification is read into that keeps to what the maps
keep to. -/
theorem all_readOpcode_of_orderly {op : Nat} (hextended : Q .extended)
    (hread : AllRead c (Orderly (c.is64 → op ∈ Opcode.controlOpcodes)) Q) :
    (readOpcode c op).All Q := by
  unfold readOpcode
  dsimp only
  split
  · exact all_readEscaped_of_orderly hextended hread
  · exact all_readShared_of_orderly hextended hread _ _
  · exact all_readShared_of_orderly hextended hread _ _
  · exact all_readShared_of_orderly hextended hread _ _
  · exact all_readShared_of_orderly hextended hread _ _
  · split
    · exact all_readEntry_of_gives (Opcode.orderly_floatingPoint c op) hread op _
    · exact all_readEntry_of_gives (Opcode.orderly_oneByte c op) hread op _

end

/-- An instruction that is found is of control only under a condition. -/
def Finding.ControlOnly (control : Prop) : Finding → Prop
  | .instruction ofLength => ∀ n, (ofLength n).mnemonic.isControl → control
  | .extended => True

/-- In 64-bit code an instruction of control begins with one of eleven opcodes. -/
theorem all_readOpcode_control (c : Context) (op : Nat) :
    (readOpcode c op).All (Finding.ControlOnly (c.is64 → op ∈ Opcode.controlOpcodes)) := by
  refine all_readOpcode_of_orderly True.intro fun s hs opcode place ↦ ?_
  exact (s.all_read_mnemonic c opcode place).mono fun _ hsame n hcontrol ↦
    hs.1 (hsame n ▸ hcontrol)

end Decode

end LongMode
