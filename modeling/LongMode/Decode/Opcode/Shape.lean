import LongMode.Decode.ModRm

/-!
Shapes of extended encodings. Behind a VEX, EVEX or XOP prefix an opcode stands for an instruction
only if the fields of the prefix and of the ModRM byte agree: the width bit, the vector length, the
banks of the registers they name, the mask. A `Shape` holds the conditions of one form of an opcode.
`Shape.fits` decides those that the address does not enter, `Shape.fitsAddress` the others.

A shape that says nothing has two sources, takes a register or memory, all widths and vector
lengths, and any mask. The opcode tables build their shapes from it.
-/

set_option autoImplicit false
set_option relaxedAutoImplicit false

namespace LongMode.Decode

/-- The fields of a VEX, EVEX or XOP prefix. The first two kinds have no broadcast and no mask. -/
structure ExtendedPrefix where
  /-- Whether the code is 64-bit code, in which register numbers have all their bits. -/
  is64 : Bool
  /-- The opcode map. -/
  map : Nat
  /-- The selecting prefix that the field of two bits stands for. -/
  selector : Selector
  /-- The width bit. -/
  wide : Bool
  /-- The field of the vector length: 0 for 128 bits, 1 for 256 and 2 for 512. -/
  length : Nat
  /-- The number in the field of the second source, zero if all its bits are set. -/
  source : Nat
  /-- What is added to the number in the `reg` field. -/
  regHigh : Nat
  /-- What is added to the number in the index field. -/
  indexHigh : Nat
  /-- What is added to the number in the `rm` field. -/
  rmHigh : Nat
  /-- Memory is spread over all lanes, or a rounding mode is given. -/
  control : Bool := false
  /-- Lanes that the mask clears become zero. -/
  zeroing : Bool := false
  /-- The mask register, zero for none. -/
  mask : Nat := 0
  deriving DecidableEq, Repr

namespace ExtendedPrefix

/-- The register in the field of the second source. Outside 64-bit code there are eight. -/
def sourceRegister (p : ExtendedPrefix) : Nat :=
  if p.is64 then p.source else p.source % 8

/-- The vector length in use: where the length field holds a rounding mode, 512 bits. -/
def lengthInUse (p : ExtendedPrefix) (m : ModRm) : Nat :=
  if p.control && m.isRegister then 2 else p.length

end ExtendedPrefix

/-- The bank of a register, as far as it limits the number. -/
inductive Bank where
  /-- Vector registers. -/
  | vector
  /-- General registers, of which there are sixteen. -/
  | general
  /-- Mask or tile registers, of which there are eight. -/
  | eight
  deriving DecidableEq, Repr

/-- Whether a bank has a register of a number. -/
def Bank.has (bank : Bank) (n : Nat) : Bool :=
  match bank with
  | vector => true
  | general => n < 16
  | eight => n < 8

/-- What the `rm` field has to stand for. -/
inductive PlaceRule where
  /-- A register or memory. -/
  | any
  /-- A register. -/
  | register
  /-- The first register. -/
  | firstRegister
  /-- Memory. -/
  | memory
  /-- Memory addressed with a SIB byte. -/
  | scaled
  /-- Memory addressed with a SIB byte that has a vector as its index. -/
  | indexed
  /-- There is no ModRM byte. -/
  | absent
  deriving DecidableEq, Repr

namespace PlaceRule

/-- Whether a ModRM byte keeps a rule. -/
def admits (rule : PlaceRule) (m : ModRm) : Bool :=
  match rule with
  | any => true
  | register => m.isRegister
  | firstRegister => m.isRegister && m.rm == 0
  | memory | scaled | indexed => m.isMemory
  | absent => false

/-- Whether a rule asks for a SIB byte. -/
def needsIndex (rule : PlaceRule) : Bool :=
  rule == scaled || rule == indexed

end PlaceRule

/-- How a result is masked. -/
inductive Masking where
  /-- By no mask. -/
  | none
  /-- By a mask under which lanes keep their values. -/
  | merging
  /-- By a mask of either kind. -/
  | full
  /-- By a mask of either kind, but memory keeps its values. -/
  | store
  /-- Always by a mask, under which lanes keep their values. -/
  | required
  deriving DecidableEq, Repr

/-- Whether a prefix names a mask of the right kind. Zeroing without a mask does not exist. -/
def Masking.admits (masking : Masking) (p : ExtendedPrefix) (m : ModRm) : Bool :=
  match masking with
  | none => p.mask == 0
  | merging => !p.zeroing
  | full => true
  | store => !(p.zeroing && m.isMemory)
  | required => p.mask != 0 && !p.zeroing

/-- Which vector registers of an encoding may be the same. -/
inductive Overlap where
  /-- Any of them. -/
  | allowed
  /-- Sources, but none of them is the target. -/
  | ofSources
  /-- None. -/
  | forbidden
  deriving DecidableEq, Repr

/-- Whether the numbers of a list are pairwise different. -/
def allDiffer : List Nat → Bool
  | [] => true
  | n :: ns => !ns.contains n && allDiffer ns

/-- Whether the registers of an encoding overlap only where they may. -/
def Overlap.admits (overlap : Overlap) (target : Nat) (sources : List Nat) : Bool :=
  match overlap with
  | allowed => true
  | ofSources => !sources.contains target
  | forbidden => allDiffer (target :: sources)

/-- The conditions of one form of an opcode behind an extended prefix. -/
structure Shape where
  /-- The width bit, if it is not free. -/
  wide : Option Bool := none
  /-- The least vector length. -/
  least : Nat := 0
  /-- The greatest vector length. -/
  greatest : Nat := 2
  /-- What the `rm` field stands for. -/
  place : PlaceRule := .any
  /-- The values of a `reg` field that extends the opcode; none if it names a register. -/
  extensions : List Nat := []
  /-- The bank of the `reg` field. -/
  target : Bank := .vector
  /-- The bank of the second source, if there is one. -/
  second : Option Bank := some .vector
  /-- The bank of the `rm` field; masks are named without regard to further bits. -/
  operand : Bank := .vector
  /-- Memory may be spread over all lanes. -/
  spreads : Bool := false
  /-- With registers, a rounding mode may be given or exceptions be suppressed. -/
  rounds : Bool := false
  /-- How the result is masked. -/
  masking : Masking := .full
  /-- Which registers may be the same. -/
  overlap : Overlap := .allowed
  /-- The form exists in 64-bit code alone. -/
  only64 : Bool := false
  deriving DecidableEq, Repr

namespace Shape

/-- Two sources. -/
def binary : Shape :=
  {}

/-- One source, so that the field of the second one is not in use. -/
def unary : Shape :=
  { second := none }

/-- The width bit is clear. -/
def w0 (s : Shape) : Shape :=
  { s with wide := some false }

/-- The width bit is set. -/
def w1 (s : Shape) : Shape :=
  { s with wide := some true }

/-- Vectors of 128 bits. -/
def l128 (s : Shape) : Shape :=
  { s with greatest := 0 }

/-- Vectors of 256 bits. -/
def l256 (s : Shape) : Shape :=
  { s with least := 1, greatest := 1 }

/-- Vectors of 512 bits. -/
def l512 (s : Shape) : Shape :=
  { s with least := 2 }

/-- Vectors of 256 bits and more. -/
def from256 (s : Shape) : Shape :=
  { s with least := 1 }

/-- The `rm` field names a register. -/
def register (s : Shape) : Shape :=
  { s with place := .register }

/-- The `rm` field names the first register. -/
def firstRegister (s : Shape) : Shape :=
  { s with place := .firstRegister }

/-- The `rm` field stands for memory. -/
def memory (s : Shape) : Shape :=
  { s with place := .memory }

/-- The `rm` field stands for memory addressed with a SIB byte. -/
def scaled (s : Shape) : Shape :=
  { s with place := .scaled }

/-- The `rm` field stands for memory at the addresses in a vector. -/
def indexed (s : Shape) : Shape :=
  { s with place := .indexed }

/-- There is no ModRM byte. -/
def absent (s : Shape) : Shape :=
  { s with place := .absent }

/-- The `reg` field extends the opcode by one of some numbers. -/
def group (s : Shape) (extensions : List Nat) : Shape :=
  { s with extensions }

/-- The `reg` field names a mask or tile; lanes of a mask are not zeroed. -/
def toEight (s : Shape) : Shape :=
  { s with target := .eight, masking := .merging }

/-- The `reg` field names a general register. -/
def toGeneral (s : Shape) : Shape :=
  { s with target := .general }

/-- Memory may be spread over all lanes. -/
def bcst (s : Shape) : Shape :=
  { s with spreads := true }

/-- A rounding mode may be given. -/
def er (s : Shape) : Shape :=
  { s with rounds := true }

/-- The target is none of the sources. -/
def apart (s : Shape) : Shape :=
  { s with overlap := .ofSources }

/-- There is no mask. -/
def unmasked (s : Shape) : Shape :=
  { s with masking := .none }

/-- The result goes to the `rm` field. -/
def stored (s : Shape) : Shape :=
  { s with masking := .store }

/-- The form exists in 64-bit code alone. -/
def in64 (s : Shape) : Shape :=
  { s with only64 := true }

/-- Whether the field of the second source keeps to a shape. If it is not in use all its bits are
set, but for the one that belongs to a vector index. -/
def fitsSecond (s : Shape) (p : ExtendedPrefix) : Bool :=
  match s.second with
  | some bank => bank.has p.sourceRegister
  | none => (if s.place = .indexed then p.source % 16 else p.source) == 0

/-- Whether a prefix and a ModRM byte keep to a shape. -/
def fits (s : Shape) (p : ExtendedPrefix) (m : ModRm) : Bool :=
  let length := p.lengthInUse m
  (p.is64 || !s.only64)
    && s.wide.all (· == p.wide)
    && s.least ≤ length && length ≤ s.greatest
    && s.place.admits m
    && (s.extensions.isEmpty || s.extensions.contains m.reg)
    && s.target.has (m.reg + p.regHigh)
    && s.fitsSecond p
    && (m.isMemory || s.operand.has (m.rm + p.rmHigh))
    && (!p.control || (if m.isRegister then s.rounds else s.spreads))
    && s.masking.admits p m

/-- The registers that a shape reads, given the index field of the address, if there is one. -/
def sources (s : Shape) (p : ExtendedPrefix) (m : ModRm) (index : Option Nat) : List Nat :=
  let second := if s.second.isSome then [p.sourceRegister] else []
  let operand := if m.isRegister then [m.rm + p.rmHigh] else []
  let vectorIndex := if s.place = .indexed then index.toList.map (· + p.indexHigh) else []
  second ++ operand ++ vectorIndex

/-- Whether the index field of the address keeps to a shape. -/
def fitsAddress (s : Shape) (p : ExtendedPrefix) (m : ModRm) (index : Option Nat) : Bool :=
  (index.isSome || !s.place.needsIndex)
    && s.overlap.admits (m.reg + p.regHigh) (s.sources p m index)

end Shape

/-- A row of an opcode table: the first and the last opcode, and a shape that they have. -/
abbrev ShapeRow := Nat × Nat × Shape

/-- The shapes of an opcode in a table. -/
def shapesOf (rows : List ShapeRow) (op : Nat) : List Shape :=
  rows.filterMap fun (first, last, shape) => if first ≤ op ∧ op ≤ last then some shape else none

end LongMode.Decode
