import LongMode.Core.Thread
import LongMode.Linux.Directory

/-!
What the kernel keeps for a process: who it is, its standard streams, its descriptors, the extent of
its heap and its working directory. Descriptors are given out lowest first; `DescriptorTable.get?`
is the view of the table.
-/

set_option autoImplicit false
set_option relaxedAutoImplicit false

namespace LongMode.Linux

/-- A machine word, as calls take and return them. -/
abbrev Word := BitVec 64

/-! ### Streams and descriptors -/

/-- Where the output of a process goes. -/
inductive OutputStream where
  /-- It is kept. -/
  | captured (bytes : List UInt8)
  /-- It is dropped. -/
  | discarded
  deriving DecidableEq, Repr

namespace OutputStream

/-- Put bytes out. -/
def append : OutputStream → List UInt8 → OutputStream
  | captured bytes, more => captured (bytes ++ more)
  | discarded, _ => discarded

/-- What was kept. -/
def contents : OutputStream → List UInt8
  | captured bytes => bytes
  | discarded => []

end OutputStream

/-- What a descriptor refers to. -/
inductive OpenObject where
  /-- The standard input. -/
  | input
  /-- The standard output. -/
  | output
  /-- The standard error. -/
  | errors
  /-- A file. -/
  | file (f : OpenFile)
  deriving DecidableEq, Repr

namespace OpenObject

/-- Whether a descriptor may be read. -/
def isReadable : OpenObject → Bool
  | input => true
  | file f => f.readable
  | _ => false

/-- Whether a descriptor may be written. -/
def isWritable : OpenObject → Bool
  | output | errors => true
  | file f => f.writable
  | input => false

end OpenObject

/-- The open descriptors of a process. -/
structure DescriptorTable where
  /-- What each open descriptor refers to. -/
  objects : Std.ExtTreeMap Nat OpenObject

namespace DescriptorTable

/-- Descriptors are below this number. -/
def limit : Nat := 1024

/-- The three standard streams. -/
def standard : DescriptorTable where
  objects :=
    (((∅ : Std.ExtTreeMap Nat OpenObject).insert 0 .input).insert 1 .output).insert 2 .errors

/-- What a descriptor refers to, if it is open. -/
def get? (t : DescriptorTable) (descriptor : Word) : Option OpenObject :=
  t.objects[descriptor.toNat]?

/-- Make a descriptor refer to something. -/
def set (t : DescriptorTable) (descriptor : Nat) (object : OpenObject) : DescriptorTable :=
  ⟨t.objects.insert descriptor object⟩

/-- Close a descriptor. -/
def erase (t : DescriptorTable) (descriptor : Word) : DescriptorTable :=
  ⟨t.objects.erase descriptor.toNat⟩

/-- The lowest descriptor that is not open. -/
def lowestFree? (t : DescriptorTable) : Option Nat :=
  (List.range limit).find? fun n => !t.objects.contains n

end DescriptorTable

/-! ### The heap -/

/-- The extent of the heap. -/
structure Heap where
  /-- The lowest address of the heap. -/
  start : Address
  /-- The break: the first address past the heap. -/
  current : Address
  /-- The greatest address that the break may have. -/
  limit : Address
  deriving DecidableEq, Repr

namespace Heap

/-- The greatest size of a heap unless another one is asked for. -/
def defaultLimit : Nat := 0x40000000

/-- An empty heap that may grow by so many bytes, but not past the end of memory. -/
def ofLimit (start : Address) (bytes : Nat) : Heap where
  start := start
  current := start
  limit := BitVec.ofNat 64 (min (start.toNat + bytes) (addressLimit - 1))

end Heap

/-! ### The kernel -/

/-- What the kernel keeps for a process. -/
structure Kernel where
  /-- The number of the process. -/
  process : Nat := 1000
  /-- The user. -/
  user : Nat := 1000
  /-- The group. -/
  group : Nat := 1000
  /-- The bytes of the standard input that were not read yet. -/
  input : List UInt8 := []
  /-- Where the standard output goes. -/
  output : OutputStream := .captured []
  /-- Where the standard error goes. -/
  errors : OutputStream := .captured []
  /-- The open descriptors. -/
  descriptors : DescriptorTable := .standard
  /-- The extent of the heap. -/
  heap : Heap
  /-- The working directory. -/
  directory : Directory := {}

/-! ### Calls -/

/-- What a call can look at and change. -/
structure Caller where
  /-- What the kernel keeps for the process. -/
  kernel : Kernel
  /-- The memory of the process. -/
  memory : Memory
  /-- The thread that calls. -/
  thread : Thread

/-- A call in progress. It fails with an error number; what it did before that stays. -/
abbrev Call := ExceptT Errno (StateM Caller)

namespace Call

/-- The kernel. -/
def kernel : Call Kernel :=
  return (← get).kernel

/-- Change the kernel. -/
def modifyKernel (f : Kernel → Kernel) : Call Unit :=
  modify fun c => { c with kernel := f c.kernel }

/-- The outcome of an operation, with an error number for its error. -/
def orFail {ε α : Type} (cause : ε → Errno) : Except ε α → Call α
  | .ok a => return a
  | .error e => throw (cause e)

/-- Load bytes from the memory of the caller. -/
def load (a : Address) (count : Nat) : Call (List UInt8) := do
  orFail (fun _ => .efault) ((← get).memory.read a count)

/-- Load a word from the memory of the caller. -/
def loadWord (a : Address) : Call Word := do
  return BitVec.ofNat 64 (LittleEndian.toNat (← load a 8))

/-- Store bytes in the memory of the caller. -/
def store (a : Address) (bytes : List UInt8) : Call Unit := do
  let memory ← orFail (fun _ => .efault) ((← get).memory.write a bytes)
  modify fun c => { c with memory }

/-- Refuse a buffer that cannot be stored to. -/
def requireStorable (a : Address) (count : Nat) : Call Unit := do
  orFail (fun _ => .efault) ((← get).memory.check .write a count)

/-- Change the page table. -/
def changePages (f : Memory → Except MapError Memory) : Call Unit := do
  let memory ← orFail .ofMapError (f (← get).memory)
  modify fun c => { c with memory }

/-- What a descriptor refers to. -/
def object (descriptor : Word) : Call OpenObject := do
  match (← kernel).descriptors.get? descriptor with
  | some object => return object
  | none => throw .ebadf

/-- What a descriptor refers to, if it may be read. -/
def readable (descriptor : Word) : Call OpenObject := do
  let o ← object descriptor
  if o.isReadable then return o else throw .ebadf

/-- What a descriptor refers to, if it may be written. -/
def writable (descriptor : Word) : Call OpenObject := do
  let o ← object descriptor
  if o.isWritable then return o else throw .ebadf

end Call

end LongMode.Linux
