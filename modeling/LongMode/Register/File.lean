import LongMode.Register.Flags
import LongMode.Register.Name

/-!
The register file of a thread, and access to it by register name. Reading a general register gives
the named bits, zero-extended; writing a 32-bit name clears the upper half, while 8- and 16-bit
names keep the rest of the register.
-/

set_option autoImplicit false
set_option relaxedAutoImplicit false

namespace LongMode

/-- The registers of one thread. -/
structure RegisterFile where
  /-- The general registers. -/
  general : Vector (BitVec 64) 16 := Vector.replicate 16 0
  /-- The address of the next instruction. -/
  rip : BitVec 64 := 0
  /-- The flag word as it was last written. -/
  rflags : Flags := Flags.initial
  /-- The segment selectors; a thread starts with the user code and stack selectors. -/
  segments : Vector (BitVec 16) 6 := #v[0, 0x33, 0x2b, 0, 0, 0]
  /-- The base address of the FS segment. -/
  fsBase : BitVec 64 := 0
  /-- The base address of the GS segment. -/
  gsBase : BitVec 64 := 0
  /-- The vector registers, lane 0 in the low bits. -/
  xmm : Vector (BitVec 128) 16 := Vector.replicate 16 0
  /-- The control and status word of vector arithmetic; it starts with every exception masked. -/
  mxcsr : BitVec 32 := 0x1f80
  deriving DecidableEq

/-- Where the bits of a named part of a general register lie. -/
structure GeneralPart where
  /-- The general register. -/
  index : Fin 16
  /-- The number of bits below the part. -/
  shift : Nat
  /-- The width of the part. -/
  width : Width
  deriving DecidableEq, Repr

/-- The part of a general register that a name stands for. -/
def Register.generalPart? : Register → Option GeneralPart
  | .general width index => some ⟨index, 0, width⟩
  | .highByte index => some ⟨index.castLE (by decide), 8, .byte⟩
  | _ => none

namespace RegisterFile

/-- The registers of a thread that starts at `rip` with its stack at `rsp`. -/
def start (rip rsp : BitVec 64) : RegisterFile :=
  { rip, general := (Vector.replicate 16 0).set Register.rsp rsp }

/-- The flag word as a program sees it: bit 1 is always set. -/
def flags (r : RegisterFile) : Flags :=
  r.rflags ||| Flags.fixed

/-- A general register. -/
def get (r : RegisterFile) (index : Fin 16) : BitVec 64 :=
  r.general[index]

/-- Change all of a general register. -/
def set (r : RegisterFile) (index : Fin 16) (value : BitVec 64) : RegisterFile :=
  { r with general := r.general.set index value }

/-- A vector register. -/
def vector (r : RegisterFile) (index : Fin 16) : BitVec 128 :=
  r.xmm[index]

/-- Change a vector register. -/
def setVector (r : RegisterFile) (index : Fin 16) (value : BitVec 128) : RegisterFile :=
  { r with xmm := r.xmm.set index value }

/-- The word that results when `value` is written to a part of `old`. -/
def mergePart (old value : BitVec 64) (shift : Nat) : Width → BitVec 64
  | .qword => value
  | .dword => (value.setWidth 32).setWidth 64
  | width =>
    let mask := (BitVec.allOnes width.bits).setWidth 64 <<< shift
    old &&& ~~~mask ||| value <<< shift &&& mask

/-- Write the low `width` bits of a general register, by a mask of that width. -/
def setLow (r : RegisterFile) (index : Fin 16) (width : Width) (value : BitVec 64) : RegisterFile :=
  r.set index <|
    match width with
    | .qword => value
    | .dword => value &&& 0xffffffff
    | width => r.get index &&& ~~~width.mask ||| value &&& width.mask

/-- The value of a named register, zero-extended; `none` for a register that a thread lacks or that
is wider than 64 bits. -/
def read? (r : RegisterFile) (name : Register) : Option (BitVec 64) :=
  match name.generalPart? with
  | some part => some ((r.get part.index >>> part.shift).setWidth part.width.bits |>.setWidth 64)
  | none =>
    match name with
    | .instructionPointer true => some r.rip
    | .instructionPointer false => some ((r.rip.setWidth 32).setWidth 64)
    | .segment s => some (r.segments[s.index].setWidth 64)
    | _ => none

/-- Write a named general register; `none` for every other register. -/
def write? (r : RegisterFile) (name : Register) (value : BitVec 64) : Option RegisterFile :=
  name.generalPart?.map fun part =>
    r.set part.index (mergePart (r.get part.index) value part.shift part.width)

end RegisterFile

/-- The wording for a register that a thread lacks. -/
def unmodelledRegisterMessage (name : String) : String :=
  "register " ++ name ++ " is not modelled"

end LongMode
