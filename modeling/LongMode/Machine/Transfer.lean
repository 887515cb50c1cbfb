import LongMode.Machine.Basic

/-!
Instructions that move data between registers, memory, the stack and the flag word, and the two that
answer questions about the machine.
-/

set_option autoImplicit false
set_option relaxedAutoImplicit false

namespace LongMode.Exec

/-- A move at the width of the destination. -/
def move (i : Instruction) : Exec Unit := do
  let dst ← i.operand 0
  let w ← dst.width
  let value ← readOperand (← i.operand 1) w
  writeOperand dst w value

/-- A move to a wider destination, with zeros or with the sign. -/
def moveExtended (signed : Bool) (i : Instruction) : Exec Unit := do
  let dst ← i.operand 0
  let src ← i.operand 1
  let w ← src.width
  let wide ← dst.width
  let value ← readOperand src w
  writeOperand dst wide (if signed then value.signExtend _ else value.setWidth _)

/-- The address of a memory operand within its segment. -/
def loadAddress (i : Instruction) : Exec Unit := do
  let dst ← i.operand 0
  match ← i.operand 1 with
  | .memory m =>
    let a ← offset m
    let w ← dst.width
    writeOperand dst w (a.setWidth _)
  | _ => invalid

/-- Two registers, or a register and a cell of memory, trade their values. -/
def exchange (i : Instruction) : Exec Unit := do
  let first ← i.operand 0
  let second ← i.operand 1
  let w ← first.width
  let withMemory (m : MemoryOperand) (r : Register) : Exec Unit := do
    let value := (← readRegister r).setWidth w.bits
    let old ← atomically (← linear m) w fun old => (value, old)
    writeRegister r (old.setWidth 64)
  match first, second with
  | .register a, .register b =>
    let x ← readRegister a
    let y ← readRegister b
    writeRegister a y
    writeRegister b x
  | .memory m, .register r => withMemory m r
  | .register r, .memory m => withMemory m r
  | _, _ => invalid

/-! ### The stack -/

/-- The width of a stack slot; slots of other widths than 2 and 8 bytes are not executed. -/
def slotWidth (i : Instruction) : Exec Width :=
  match i.stackIncrement.natAbs with
  | 2 => pure .word
  | 8 => pure .qword
  | _ => unsupported

/-- A push. -/
def pushOperand (i : Instruction) : Exec Unit := do
  let w ← slotWidth i
  let value ← readOperand (← i.operand 0) w
  push w value

/-- A pop. A destination in memory is addressed with the stack pointer after the pop. -/
def popOperand (i : Instruction) : Exec Unit := do
  let w ← slotWidth i
  let dst ← i.operand 0
  let value ← pop w
  writeOperand dst w value

/-- The end of a frame: the stack pointer returns to the frame pointer, which is popped. -/
def leave : Exec Unit := do
  setGeneral Register.rsp (← general Register.rbp)
  let frame ← pop .qword
  setGeneral Register.rbp frame

/-! ### Conditions -/

/-- Move if a condition is met. The source is read in any case, and a 32-bit destination always
loses its upper half. -/
def moveIf (taken : Bool) (i : Instruction) : Exec Unit := do
  let dst ← i.operand 0
  let w ← dst.width
  let value ← readOperand (← i.operand 1) w
  if taken then writeOperand dst w value
  else if w = .dword then
    let old ← readOperand dst w
    writeOperand dst w old

/-- A conditional move. -/
def moveOn (c : Condition) (i : Instruction) : Exec Unit := do
  moveIf (c.holds (← flags)) i

/-- Store a truth value as a byte. -/
def setIf (value : Bool) (i : Instruction) : Exec Unit := do
  writeOperand (← i.operand 0) .byte ((BitVec.ofBool value).setWidth _)

/-- The value of a condition as a byte. -/
def setOn (c : Condition) (i : Instruction) : Exec Unit := do
  setIf (c.holds (← flags)) i

/-! ### The accumulator -/

/-- Extend the lower half of the accumulator with its sign. -/
def widenAccumulator (w : Width) : Exec Unit := do
  let low := (← general Register.rax).setWidth (w.bits / 2)
  setGeneralLow Register.rax w (low.signExtend _)

/-- Fill the data register with the sign of the accumulator. -/
def widenPair (w : Width) : Exec Unit := do
  let negative := (← generalLow Register.rax w).msb
  setGeneralLow Register.rdx w (if negative then BitVec.allOnes _ else 0)

/-! ### The flag word -/

/-- The flags that travel through the second byte of the accumulator. -/
def byteFlags : BitVec 64 :=
  Flags.mask [.carry, .parity, .adjust, .zero, .sign]

/-- Load the second byte of the accumulator from the flags. -/
def loadFlagByte : Exec Unit := do
  let byte := (← registers).flags &&& byteFlags ||| Flags.fixed
  let rax ← general Register.rax
  setGeneral Register.rax (rax &&& ~~~(0xff00#64) ||| byte <<< 8)

/-- Store the second byte of the accumulator in the flags. -/
def storeFlagByte : Exec Unit := do
  let byte := (← general Register.rax) >>> 8 &&& byteFlags
  modifyFlags fun f => f &&& ~~~byteFlags ||| byte

/-- Push the flag word. -/
def pushFlags (i : Instruction) : Exec Unit := do
  let w ← slotWidth i
  push w ((← registers).flags.setWidth _)

/-- The flags that a pop of a width changes. -/
def poppedFlags (w : Width) : BitVec 64 :=
  Flags.mask Flag.userWritable &&& (BitVec.allOnes w.bits).setWidth 64

/-- Pop the flag word; flags that a program may not change keep their value. -/
def popFlags (i : Instruction) : Exec Unit := do
  let w ← slotWidth i
  let popped := (← pop w).setWidth 64
  modifyFlags fun f => f &&& ~~~poppedFlags w ||| popped &&& poppedFlags w ||| Flags.fixed

/-- An instruction that changes one flag. -/
def changeFlag (op : FlagOp) : Exec Unit :=
  modifyFlags fun f =>
    match op with
    | .clc => f.set .carry false
    | .stc => f.set .carry true
    | .cmc => f.set .carry (!f.get .carry)
    | .cld => f.set .direction false
    | .std => f.set .direction true

/-! ### Questions about the machine -/

/-- The vendor that the machine names. -/
def vendor : String := "XemuXemuXemu"

/-- Four bytes of the vendor's name as a number. -/
def vendorWord (first : Nat) : Nat :=
  LittleEndian.toNat ((vendor.toUTF8.toList.drop first).take 4)

/-- The word with exactly the given bits. -/
def bitsOf (positions : List Nat) : Nat :=
  positions.foldl (fun n position => n ||| 1 <<< position) 0

/-- What the machine says about itself: the four words for a question. Only features that
instructions have are named: a time-stamp counter, exchanges of eight and sixteen bytes, conditional
moves, vector arithmetic of both precisions, bit counts, and 64-bit code with its call of the
host. -/
def identification (question : Nat) : Nat × Nat × Nat × Nat :=
  match question with
  | 0 => (1, vendorWord 0, vendorWord 8, vendorWord 4)
  | 1 => (0x60f00, 0, bitsOf [13, 23], bitsOf [4, 8, 15, 25, 26])
  | 0x80000000 => (0x80000001, 0, 0, 0)
  | 0x80000001 => (0, 0, bitsOf [0, 5], bitsOf [11, 29])
  | _ => (0, 0, 0, 0)

/-- Answer a question about the machine. -/
def identify : Exec Unit := do
  let question := ((← general Register.rax).setWidth 32).toNat
  let (a, b, c, d) := identification question
  setGeneral Register.rax (BitVec.ofNat 64 a)
  setGeneral Register.rbx (BitVec.ofNat 64 b)
  setGeneral Register.rcx (BitVec.ofNat 64 c)
  setGeneral Register.rdx (BitVec.ofNat 64 d)

/-- The time-stamp counter, which counts completed instructions. -/
def readTimeStamp : Exec Unit := do
  let count := BitVec.ofNat 64 (← get).retired
  setGeneral Register.rax ((count.setWidth 32).setWidth 64)
  setGeneral Register.rdx (count >>> 32)

end LongMode.Exec
