import LongMode.Elf.Segment
import LongMode.Text.Utf8

/-!
The stack a program starts with. From the top down it holds the strings, among them the arguments
and the environment, and then, at a multiple of 16, a block of words: the number of arguments, their
addresses and a zero, the addresses of the environment and a zero, and the auxiliary vector, pairs
of a key and a value that end with a pair of zeros.
-/

set_option autoImplicit false
set_option relaxedAutoImplicit false

namespace LongMode.Elf

open Text

/-- What an entry of the auxiliary vector is about. -/
inductive AuxiliaryKey where
  /-- The end of the vector. -/
  | null
  /-- The address of the program headers. -/
  | programHeaders
  /-- The size of a program header. -/
  | programHeaderSize
  /-- The number of program headers. -/
  | programHeaderCount
  /-- The size of a page. -/
  | pageSize
  /-- The address of the interpreter. -/
  | base
  /-- Flags. -/
  | flags
  /-- The address of the first instruction. -/
  | entry
  /-- The user. -/
  | user
  /-- The user whose rights hold. -/
  | effectiveUser
  /-- The group. -/
  | group
  /-- The group whose rights hold. -/
  | effectiveGroup
  /-- The address of the name of the processor. -/
  | platform
  /-- The features of the processor. -/
  | features
  /-- Clock ticks in a second. -/
  | clockTicks
  /-- Whether rights were raised. -/
  | secure
  /-- The address of sixteen random bytes. -/
  | random
  /-- The address of the path of the program. -/
  | programPath
  deriving DecidableEq, Repr

/-- The number of a key. -/
def AuxiliaryKey.number : AuxiliaryKey → Nat
  | null => 0
  | programHeaders => 3
  | programHeaderSize => 4
  | programHeaderCount => 5
  | pageSize => 6
  | base => 7
  | flags => 8
  | entry => 9
  | user => 11
  | effectiveUser => 12
  | group => 13
  | effectiveGroup => 14
  | platform => 15
  | features => 16
  | clockTicks => 17
  | secure => 23
  | random => 25
  | programPath => 31

/-- An entry of the auxiliary vector. -/
structure AuxiliaryEntry where
  /-- What the entry is about. -/
  key : AuxiliaryKey
  /-- The value. -/
  value : BitVec 64
  deriving DecidableEq, Repr

/-- The two words of an entry. -/
def AuxiliaryEntry.words (e : AuxiliaryEntry) : List (BitVec 64) :=
  [BitVec.ofNat 64 e.key.number, e.value]

/-- What a program finds on its stack besides what its image says. -/
structure StackContents where
  /-- The arguments. -/
  arguments : List String
  /-- The environment. -/
  environment : List String
  /-- The path of the program. -/
  path : String
  /-- Sixteen random bytes. -/
  random : Vector UInt8 16
  /-- The entries of the auxiliary vector that hold no address on the stack. -/
  auxiliary : List AuxiliaryEntry
  deriving DecidableEq

/-- A text with a zero byte behind it. -/
def terminated (text : String) : List UInt8 :=
  Utf8.encode text ++ [0]

/-- The name of the processor. -/
def platformName : String := "x86_64"

/-- A stack under construction. -/
structure StackBuilder where
  /-- The memory so far. -/
  memory : Memory
  /-- The lowest address of the stack. -/
  floor : Nat
  /-- The lowest address in use. -/
  pointer : Nat

/-- Why a stack cannot be built further. -/
inductive StackFlaw where
  /-- There is no room. -/
  | full
  /-- The memory refused a store. -/
  | memory (fault : MemoryFault)
  deriving DecidableEq, Repr

/-- Steps in building a stack; what was stored before a failure stays. -/
abbrev StackBuild := ExceptT StackFlaw (StateM StackBuilder)

namespace StackBuild

/-- Make room below what is in use. -/
def reserve (size : Nat) : StackBuild Unit := do
  let s ← get
  if s.floor + size ≤ s.pointer then set { s with pointer := s.pointer - size }
  else throw .full

/-- Store bytes at the lowest address in use. -/
def store (bytes : List UInt8) : StackBuild Unit := do
  let s ← get
  match s.memory.poke (BitVec.ofNat 64 s.pointer) bytes with
  | .ok memory => set { s with memory }
  | .error fault => throw (.memory fault)

/-- Put bytes below what is in use and return their address. -/
def push (bytes : List UInt8) : StackBuild (BitVec 64) := do
  reserve bytes.length
  store bytes
  return BitVec.ofNat 64 (← get).pointer

/-- Put texts below what is in use, the last one first, and return their addresses in order. -/
def pushTexts : List String → StackBuild (List (BitVec 64))
  | [] => return []
  | text :: texts => do
    let addresses ← pushTexts texts
    let address ← push (terminated text)
    return address :: addresses

/-- The block of words, given the addresses of all strings. -/
def block (c : StackContents) (arguments environment : List (BitVec 64))
    (platform random path : BitVec 64) : List (BitVec 64) :=
  let others : List AuxiliaryEntry :=
    [⟨.platform, platform⟩, ⟨.random, random⟩, ⟨.programPath, path⟩, ⟨.null, 0⟩]
  BitVec.ofNat 64 arguments.length :: arguments ++ [0] ++ environment ++ [0]
    ++ (c.auxiliary ++ others).flatMap AuxiliaryEntry.words

/-- Put the contents of a stack in place and return the address of the block of words. -/
def build (c : StackContents) : StackBuild (BitVec 64) := do
  let path ← push (terminated c.path)
  let environment ← pushTexts c.environment
  let arguments ← pushTexts c.arguments
  let platform ← push (terminated platformName)
  let random ← push c.random.toList
  let words := block c arguments environment platform random path
  reserve (words.length * 8)
  modify fun s => { s with pointer := s.pointer / 16 * 16 }
  store (words.flatMap fun w => LittleEndian.ofNat 8 w.toNat)
  return BitVec.ofNat 64 (← get).pointer

end StackBuild

end LongMode.Elf
