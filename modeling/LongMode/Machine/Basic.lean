import LongMode.Machine.Fault
import LongMode.Memory.Atomic
import LongMode.Register.File

/-!
The machine that an instruction runs on: registers, memory, the count of completed instructions, and
the stores made so far. An instruction is a computation in `Exec`, which threads the machine and
stops at a fault or a panic. The registers are a copy that only a completed instruction hands on;
memory is changed in place, and a computation that stops leaves it as it was when it stopped.

Every store goes through `record`, which keeps the list of stores in step with memory.
-/

set_option autoImplicit false
set_option relaxedAutoImplicit false

namespace LongMode

/-- One store: where, and the bytes. -/
structure MemoryWrite where
  /-- The address of the first byte. -/
  address : Address
  /-- The bytes stored. -/
  bytes : List UInt8
  deriving DecidableEq, Repr

/-- What an instruction works on. -/
structure Machine where
  /-- The registers. -/
  registers : RegisterFile
  /-- The memory. -/
  memory : Memory
  /-- How many instructions the thread completed before this one. -/
  retired : Nat
  /-- The stores of this instruction in order. -/
  writes : Array MemoryWrite := #[]

/-- A computation on the machine that may stop. Stopping keeps the state of the machine. -/
abbrev Exec : Type → Type :=
  ExceptT Stop (StateM Machine)

/-- How a completed instruction passes control on. -/
inductive Transfer where
  /-- To the instruction behind it. -/
  | next
  /-- To an address. -/
  | branch (target : Address)
  /-- To the host; execution goes on behind the instruction. -/
  | syscall
  deriving DecidableEq, Repr

/-- The width of a sized operand. -/
def Operand.width? (o : Operand) : Option Width :=
  o.size?.bind Width.ofBytes?

namespace Exec

/-- Stop with a fault. -/
def fault {α : Type} (f : Fault) : Exec α :=
  throw (.fault f)

/-- Stop because the form is not executed. -/
def unsupported {α : Type} : Exec α :=
  fault (.decode .unsupported)

/-- Stop because the form does not exist. -/
def invalid {α : Type} : Exec α :=
  fault (.decode .invalidOpcode)

/-- The value of an option, or stop because the form is not executed. -/
def orUnsupported {α : Type} : Option α → Exec α
  | some value => pure value
  | none => unsupported

/-- The outcome of a calculation that may panic. -/
def orPanic {α : Type} : Except Panic α → Exec α
  | .ok value => pure value
  | .error p => throw (.panic p)

/-- The outcome of a memory access. -/
def ofMemory {α : Type} : Except MemoryFault α → Exec α
  | .ok value => pure value
  | .error f => fault (.memory f)

/-! ### Registers -/

/-- The registers. -/
def registers : Exec RegisterFile := do
  return (← get).registers

/-- Change the registers. -/
def modifyRegisters (f : RegisterFile → RegisterFile) : Exec Unit :=
  modify fun m => { m with registers := f m.registers }

/-- The flag word as it was last written. -/
def flags : Exec Flags := do
  return (← registers).rflags

/-- Replace the flag word. -/
def setFlags (f : Flags) : Exec Unit :=
  modifyRegisters fun r => { r with rflags := f }

/-- Change the flag word. -/
def modifyFlags (f : Flags → Flags) : Exec Unit :=
  modifyRegisters fun r => { r with rflags := f r.rflags }

/-- All of a general register. -/
def general (index : Fin 16) : Exec (BitVec 64) := do
  return (← registers).get index

/-- Change all of a general register. -/
def setGeneral (index : Fin 16) (value : BitVec 64) : Exec Unit :=
  modifyRegisters (·.set index value)

/-- The low part of a general register. -/
def generalLow (index : Fin 16) (w : Width) : Exec (BitVec w.bits) := do
  return (← general index).setWidth w.bits

/-- Write the low part of a general register. -/
def setGeneralLow (index : Fin 16) (w : Width) (value : BitVec w.bits) : Exec Unit :=
  modifyRegisters (·.setLow index w (value.setWidth 64))

/-- The value of a named register. -/
def readRegister (name : Register) : Exec (BitVec 64) := do
  orUnsupported ((← registers).read? name)

/-- Write a named register. -/
def writeRegister (name : Register) (value : BitVec 64) : Exec Unit := do
  let r ← orUnsupported ((← registers).write? name value)
  modifyRegisters fun _ => r

/-! ### Addresses -/

/-- The value of an optional address register, zero if there is none. -/
def addressPart : Option Register → Exec (BitVec 64)
  | some r => readRegister r
  | none => pure 0

/-- Whether an optional address register has 32 bits. -/
def isHalf : Option Register → Bool
  | some r => r.size == 4
  | none => false

/-- The address of a memory operand within its segment. It has 32 bits if a register in it has. -/
def offset (o : MemoryOperand) : Exec Address := do
  let base ← addressPart o.base
  let index ← addressPart o.index
  let sum := o.displacement + base + index * BitVec.ofNat 64 o.scale
  return if isHalf o.base || isHalf o.index then (sum.setWidth 32).setWidth 64 else sum

/-- The base address of a segment; only FS and GS have one. -/
def segmentBase : Segment → Exec Address
  | .fs => do return (← registers).fsBase
  | .gs => do return (← registers).gsBase
  | _ => pure 0

/-- The address of a memory operand. -/
def linear (o : MemoryOperand) : Exec Address := do
  let within ← offset o
  let base ← segmentBase o.segment
  return within + base

/-! ### Memory -/

/-- The memory. -/
def memory : Exec Memory := do
  return (← get).memory

/-- Refuse a range that forbids an access. -/
def check (access : Access) (a : Address) (length : Nat) : Exec Unit := do
  ofMemory ((← memory).check access a length)

/-- Load bytes. -/
def loadBytes (a : Address) (count : Nat) : Exec (List UInt8) := do
  ofMemory ((← memory).read a count)

/-- Replace the memory by one in which bytes were stored, and record the store. -/
def record (m : Memory) (a : Address) (bytes : List UInt8) : Exec Unit :=
  modify fun s => { s with memory := m, writes := s.writes.push ⟨a, bytes⟩ }

/-- Store bytes. -/
def storeBytes (a : Address) (bytes : List UInt8) : Exec Unit := do
  let m ← ofMemory ((← memory).write a bytes)
  record m a bytes

/-- Load a word of `size` bytes. -/
def loadWord (a : Address) (size : Nat) : Exec (BitVec (8 * size)) := do
  return BitVec.ofNat (8 * size) (LittleEndian.toNat (← loadBytes a size))

/-- Store a word of `size` bytes. -/
def storeWord (a : Address) (size : Nat) (value : BitVec (8 * size)) : Exec Unit :=
  storeBytes a (LittleEndian.ofNat size value.toNat)

/-- Load an operand of a width. -/
def load (a : Address) (w : Width) : Exec (BitVec w.bits) :=
  loadWord a w.bytes

/-- Store an operand of a width. -/
def store (a : Address) (w : Width) (value : BitVec w.bits) : Exec Unit :=
  storeWord a w.bytes value

/-- Replace a cell by the first component of `f` at its old value and return the second. The store
is recorded only if the cell changes. -/
def atomically {α : Type} (a : Address) (w : Width)
    (f : BitVec w.bits → BitVec w.bits × α) : Exec α := do
  let ((old, new, result), m) ← ofMemory ((← memory).atomicUpdate a w.bytes fun old =>
    ((f old).1, old, f old))
  if new ≠ old then record m a (LittleEndian.ofNat w.bytes new.toNat)
  return result

/-! ### Operands -/

/-- The value of an operand at a width. -/
def readOperand (o : Operand) (w : Width) : Exec (BitVec w.bits) := do
  match o with
  | .register r => return (← readRegister r).setWidth w.bits
  | .immediate value _ => return value.setWidth w.bits
  | .memory m => load (← linear m) w
  | .branch target => return target.setWidth w.bits
  | .implicit => unsupported

/-- Write an operand at a width. -/
def writeOperand (o : Operand) (w : Width) (value : BitVec w.bits) : Exec Unit := do
  match o with
  | .register r => writeRegister r (value.setWidth 64)
  | .memory m => store (← linear m) w value
  | _ => invalid

/-- Replace an operand, and the flags, by what `f` makes of them, unless it panics. With `store`
unset only the flags change. A memory operand that keeps its value has to be writable all the
same. -/
def tryUpdate (o : Operand) (w : Width) (store : Bool)
    (f : Flags → BitVec w.bits → Except Panic (BitVec w.bits × Flags)) : Exec Unit := do
  match o with
  | .register r =>
    let old := (← readRegister r).setWidth w.bits
    let (new, flags) ← orPanic (f (← flags) old)
    if store then writeRegister r (new.setWidth 64)
    setFlags flags
  | .memory m =>
    let a ← linear m
    let old ← load a w
    let (new, flags) ← orPanic (f (← flags) old)
    if store then
      if new = old then check .write a w.bytes else Exec.store a w new
    setFlags flags
  | _ => invalid

/-- Replace an operand, and the flags, by what a total `f` makes of them. -/
def update (o : Operand) (w : Width) (store : Bool)
    (f : Flags → BitVec w.bits → BitVec w.bits × Flags) : Exec Unit :=
  tryUpdate o w store fun flags old => .ok (f flags old)

/-! ### The stack -/

/-- Push a word. -/
def push (w : Width) (value : BitVec w.bits) : Exec Unit := do
  let top := (← general Register.rsp) - BitVec.ofNat 64 w.bytes
  store top w value
  setGeneral Register.rsp top

/-- Pop a word. -/
def pop (w : Width) : Exec (BitVec w.bits) := do
  let top ← general Register.rsp
  let value ← load top w
  setGeneral Register.rsp (top + BitVec.ofNat 64 w.bytes)
  return value

end Exec

/-- An operand of an instruction by position. -/
def Instruction.operand (i : Instruction) (index : Nat) : Exec Operand :=
  Exec.orUnsupported i.operands[index]?

/-- The width of an operand; forms of other widths are not executed. -/
def Operand.width (o : Operand) : Exec Width :=
  Exec.orUnsupported o.width?

end LongMode
