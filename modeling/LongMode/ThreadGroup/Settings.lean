import LongMode.Core.Basic
import LongMode.Text.Blank
import LongMode.Text.Numeral

/-!
Settings of a process, and reading them from environment variables. A variable that is not set
leaves its setting as it is; one whose value cannot be read is an error that names it.
`Settings.ofEnvironment` reads all of them.
-/

set_option autoImplicit false
set_option relaxedAutoImplicit false

namespace LongMode

open Text

/-- What happens when a thread faults and nobody handles it. -/
inductive FaultPolicy where
  /-- The thread ends. -/
  | haltThread
  /-- The process ends. -/
  | killProcess
  deriving DecidableEq, Repr

/-- The settings of a process. -/
structure Settings where
  /-- How its cores are set up. -/
  core : CoreConfig := {}
  /-- Where mappings without a fixed address are placed. -/
  window : MapWindow := {}
  /-- How many instructions a thread runs before it looks whether the process is ending. -/
  batchSize : Nat := 0x10000
  /-- The size of the first stack. -/
  stackSize : Nat := 0x800000
  /-- What happens at a fault. -/
  faultPolicy : FaultPolicy := .haltThread
  deriving DecidableEq, Repr

/-- The variables that settings are read from. -/
inductive Variable where
  | batchSize
  | hotThreshold
  | decodeCache
  | stackSize
  | faultPolicy
  deriving DecidableEq, Repr

/-- The name of a variable. -/
def Variable.name : Variable → String
  | batchSize => "XEMU_BATCH_SIZE"
  | hotThreshold => "XEMU_HOT_THRESHOLD"
  | decodeCache => "XEMU_DECODE_CACHE"
  | stackSize => "XEMU_STACK_SIZE"
  | faultPolicy => "XEMU_FAULT_POLICY"

/-- The variables in the order in which they are read. -/
def Variable.all : List Variable :=
  [batchSize, hotThreshold, decodeCache, stackSize, faultPolicy]

/-- A variable whose value cannot be read. -/
structure SettingsError where
  /-- The variable. -/
  culprit : Variable
  deriving DecidableEq, Repr

/-- The wording of a settings error. -/
def SettingsError.message (e : SettingsError) : String :=
  "invalid value for env var " ++ e.culprit.name

/-! ### Values -/

/-- A count: a number below 2^64, in hexadecimal behind `0x` and in decimal otherwise. -/
def count? (value : List Char) : Option Nat :=
  match trim value with
  | '0' :: 'x' :: digits => number? 16 addressLimit digits
  | digits => number? 10 addressLimit digits

/-- A count that is not zero. -/
def positiveCount? (value : List Char) : Option Nat :=
  (count? value).filter (0 < ·)

/-- A threshold: a decimal number below 2^32, or no threshold at all for `off` and for `0`. -/
def threshold? (value : List Char) : Option (Option Nat) :=
  let word := trim value
  if word = ['o', 'f', 'f'] ∨ word = ['0'] then some none
  else (number? 10 0x100000000 word).map some

/-- The policy that a word names. -/
def FaultPolicy.ofWord? (value : List Char) : Option FaultPolicy :=
  match String.ofList (trim value) with
  | "halt" => some haltThread
  | "kill" | "kill-process" => some killProcess
  | _ => none

namespace Settings

/-- Change settings as the value of a variable says. -/
def set? (s : Settings) (v : Variable) (value : List Char) : Option Settings :=
  match v with
  | .batchSize => (positiveCount? value).map fun n => { s with batchSize := n }
  | .hotThreshold => (threshold? value).map fun n => { s with core.hotThreshold := n }
  | .decodeCache => (count? value).map fun n => { s with core.cacheEntries := n }
  | .stackSize => (positiveCount? value).map fun n => { s with stackSize := n }
  | .faultPolicy => (FaultPolicy.ofWord? value).map fun p => { s with faultPolicy := p }

/-- Change settings as a variable says, if it is set. -/
def apply (environment : String → Option String) (s : Settings) (v : Variable) :
    Except SettingsError Settings :=
  match environment v.name with
  | none => .ok s
  | some value =>
    match s.set? v value.toList with
    | some s => .ok s
    | none => .error ⟨v⟩

/-- The settings that environment variables give. -/
def ofEnvironment (environment : String → Option String) : Except SettingsError Settings :=
  Variable.all.foldlM (apply environment) {}

end Settings

end LongMode
