import LongMode.Elf.Stack
import LongMode.Register.File

/-!
Loading a static program: its segments are mapped one after the other in the order of the image, and
then its stack. `Memory.load` keeps what was mapped before a failure, as a failed call leaves it.
-/

set_option autoImplicit false
set_option relaxedAutoImplicit false

namespace LongMode.Elf

open Text

/-- Why an image cannot be loaded. -/
inductive LoadError where
  /-- The bytes are no image. -/
  | unreadable
  /-- Addresses are narrow, or the most significant byte comes first. -/
  | notElf64
  /-- The image is for another processor. -/
  | unsupportedMachine (machine : Nat)
  /-- The image is no program. -/
  | unsupportedType (kind : Nat)
  /-- The program needs an interpreter. -/
  | dynamicExecutable (interpreter : String)
  /-- There is nothing to load. -/
  | noLoadableSegments
  /-- A segment cannot be placed; its address is the one in the image. -/
  | malformedSegment (address : Nat) (flaw : SegmentFlaw)
  /-- The stack does not hold its first contents. -/
  | stackTooSmall (size : Nat)
  /-- Pages cannot be mapped. -/
  | map (error : MapError)
  /-- The memory refused a store. -/
  | memory (fault : MemoryFault)
  deriving DecidableEq, Repr

/-- The name of a load error in reports. -/
def LoadError.name : LoadError → String
  | unreadable => "Parse"
  | notElf64 => "NotElf64"
  | unsupportedMachine _ => "UnsupportedMachine"
  | unsupportedType _ => "UnsupportedType"
  | dynamicExecutable _ => "DynamicExecutable"
  | noLoadableSegments => "NoLoadableSegments"
  | malformedSegment _ _ => "MalformedSegment"
  | stackTooSmall _ => "StackTooSmall"
  | map _ => "Map"
  | memory _ => "Memory"

/-- The wording of a load error. -/
def LoadError.message : LoadError → String
  | unreadable => "elf parse error"
  | notElf64 => "not a 64-bit little-endian ELF image"
  | unsupportedMachine machine =>
    "unsupported machine " ++ hex machine ++ "; only x86-64 images can run"
  | unsupportedType kind => "unsupported ELF type " ++ toString kind
  | dynamicExecutable interpreter =>
    "dynamically linked executable (interpreter " ++ interpreter ++ ")"
  | noLoadableSegments => "image has no loadable segments"
  | malformedSegment address flaw => "malformed segment at " ++ hex address ++ ": " ++ flaw.message
  | stackTooSmall size => "initial stack does not fit in " ++ hex size ++ " bytes"
  | map error => error.message
  | memory fault => fault.message

/-- How a program is started. -/
structure LoadOptions where
  /-- The arguments. -/
  arguments : List String := ["a.out"]
  /-- The environment. -/
  environment : List String := []
  /-- The path of the program, if it is not the first argument. -/
  path : Option String := none
  /-- The end of the stack. -/
  stackTop : Address := 0x7ffffffff000
  /-- The size of the stack. -/
  stackSize : Nat := 0x800000
  /-- Sixteen random bytes. -/
  random : Vector UInt8 16 :=
    #v[0x78, 0x65, 0x6d, 0x75, 0x3a, 0x61, 0x74, 0x5f, 0x72, 0x61, 0x6e, 0x64, 0x6f, 0x6d, 0, 0]
  /-- The user. -/
  user : Nat := 1000
  /-- The group. -/
  group : Nat := 1000
  deriving DecidableEq

/-- The path of the program. -/
def LoadOptions.programPath (o : LoadOptions) : String :=
  o.path.getD (o.arguments.headD "")

/-- A loaded program. -/
structure LoadedImage where
  /-- The address of the first instruction. -/
  entry : Address
  /-- The first stack pointer. -/
  stackPointer : Address
  /-- The first page boundary past all segments. -/
  brk : Address
  /-- The address of the program headers, zero if it is not known. -/
  programHeaders : Address
  /-- How far the image was moved. -/
  bias : Nat
  deriving DecidableEq, Repr

/-- The registers that a program starts with. -/
def LoadedImage.initialRegisters (i : LoadedImage) : RegisterFile :=
  .start i.entry i.stackPointer

/-- The processor that images have to be for. -/
def requiredMachine : Nat := 62

/-- Where an image goes that can be moved. -/
def movedBias : Nat := 0x555555554000

/-- The features of the processor: time-stamp counter (bit 4), eight-byte compare and exchange (bit
8) and conditional moves (bit 15). -/
def processorFeatures : Nat := 0x8110

namespace Image

/-- How far an image is moved: not at all if its addresses are fixed. -/
def bias? (i : Image) : Except LoadError Nat :=
  match i.header.kind with
  | 2 => .ok 0
  | 3 => .ok movedBias
  | kind => .error (.unsupportedType kind)

/-- Refuse an image that is not a static program for this processor. -/
def requireStatic (i : Image) : Except LoadError Unit :=
  if !(i.encoding.wide && i.encoding.littleEndian) then .error .notElf64
  else if i.header.machine ≠ requiredMachine then .error (.unsupportedMachine i.header.machine)
  else
    match i.interpreter? with
    | some path => .error (.dynamicExecutable path)
    | none => .ok ()

end Image

/-- Steps in loading; what was done before a failure stays. -/
abbrev Loading := ExceptT LoadError (StateM Memory)

namespace Loading

/-- Change the memory or fail. -/
def update {ε : Type} (cause : ε → LoadError) (f : Memory → Except ε Memory) :
    Loading Unit := do
  match f (← get) with
  | .ok m => set m
  | .error e => throw (cause e)

/-- Overlay the pages of a range one by one. -/
def overlay (p : Permissions) (r : PageRange) : Loading Unit :=
  (List.range r.count).forM fun i => update .map fun m => Segment.overlayPage p m (r.first + i)

/-- Place a segment: map its pages, or overlay them where some of them are mapped already. -/
def place (name : String) (s : Segment) : Loading Unit := do
  let r := s.pages
  match (← get).map (.ofPage r.first) (r.count * pageSize) s.permissions (s.backing name) with
  | .ok (_, m) => set m
  | .error (.overlap ..) =>
    overlay s.permissions r
    update .memory fun m => m.poke (BitVec.ofNat 64 s.address) s.data
  | .error e => throw (.map e)

/-- Place the part that a program header describes and return the page number past its last page. -/
def placeHeader (image : Image) (name : String) (bias : Nat) (h : ProgramHeader) : Loading Nat := do
  match Segment.ofHeader image.bytes bias h with
  | .ok s =>
    place name s
    return s.pages.stop
  | .error flaw => throw (.malformedSegment h.address flaw)

/-- Map a stack and put its first contents in place; the result is the first stack pointer. -/
def mapStack (o : LoadOptions) (c : StackContents) : Loading Address := do
  let top := o.stackTop.page * pageSize
  let size := roundUpToPage o.stackSize
  if addressLimit ≤ o.stackSize + (pageSize - 1) ∨ size = 0 ∨ top < size then
    throw (.stackTooSmall o.stackSize)
  update .map fun m =>
    (m.map (BitVec.ofNat 64 (top - size)) size .readWrite .anonymous).map (·.2)
  let (result, builder) :=
    (StackBuild.build c).run.run { memory := ← get, floor := top - size, pointer := top }
  set builder.memory
  match result with
  | .ok pointer => return pointer
  | .error .full => throw (.stackTooSmall size)
  | .error (.memory fault) => throw (.memory fault)

/-- The entries of the auxiliary vector that the image and the options give. -/
def auxiliary (image : Image) (o : LoadOptions) (programHeaders entry : Address) :
    List AuxiliaryEntry :=
  let number (n : Nat) : BitVec 64 := BitVec.ofNat 64 n
  [⟨.programHeaders, programHeaders⟩,
    ⟨.programHeaderSize, number image.header.programEntrySize⟩,
    ⟨.programHeaderCount, number image.header.programCount⟩,
    ⟨.pageSize, number pageSize⟩,
    ⟨.base, 0⟩,
    ⟨.flags, 0⟩,
    ⟨.entry, entry⟩,
    ⟨.user, number o.user⟩,
    ⟨.effectiveUser, number o.user⟩,
    ⟨.group, number o.group⟩,
    ⟨.effectiveGroup, number o.group⟩,
    ⟨.features, number processorFeatures⟩,
    ⟨.clockTicks, 100⟩,
    ⟨.secure, 0⟩]

/-- Load the program of an image. -/
def image (i : Image) (o : LoadOptions) : Loading LoadedImage := do
  i.requireStatic
  let bias ← i.bias?
  if i.loads.isEmpty then throw .noLoadableSegments
  let stops ← i.loads.mapM (placeHeader i o.programPath bias)
  let programHeaders :=
    match i.headerTableAddress? with
    | some address => BitVec.ofNat 64 (address + bias)
    | none => 0
  let entry := BitVec.ofNat 64 (i.header.entry + bias)
  let stackPointer ← mapStack o
    { arguments := o.arguments
      environment := o.environment
      path := o.programPath
      random := o.random
      auxiliary := auxiliary i o programHeaders entry }
  return { entry, stackPointer, brk := .ofPage (stops.foldl max 0), programHeaders, bias }

/-- Load the program whose image is a byte string. -/
def bytes (content : List UInt8) (o : LoadOptions) : Loading LoadedImage := do
  match Image.ofBytes? content with
  | some i => image i o
  | none => throw .unreadable

end Loading

end LongMode.Elf

namespace LongMode.Memory

open Elf

/-- Load a program: the outcome, and the memory with all that was done up to it. -/
def load (m : Memory) (content : List UInt8) (o : LoadOptions) :
    Except LoadError LoadedImage × Memory :=
  (Loading.bytes content o).run.run m

end LongMode.Memory
