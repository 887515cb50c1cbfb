import LongMode.Machine.Basic
import LongMode.Machine.Lanes

/-!
Instructions on vector registers: moves, packed integer arithmetic, shifts, shuffles and the
exchange of words with general registers. A 16-byte operand in memory has to lie at a multiple of
16, except for the moves that say otherwise. The 64-bit vector registers are not modelled.
-/

set_option autoImplicit false
set_option relaxedAutoImplicit false

namespace LongMode

/-- The number of the vector register that an operand names. -/
def Operand.vectorIndex? : Operand → Option (Fin 16)
  | .register (.xmm index) => some index
  | _ => none

namespace Exec

/-- A vector register. -/
def vector (index : Fin 16) : Exec Vector128 := do
  return (← registers).vector index

/-- Change a vector register. -/
def setVector (index : Fin 16) (value : Vector128) : Exec Unit :=
  modifyRegisters (·.setVector index value)

/-- The vector register that an operand names. -/
def vectorIndex (o : Operand) : Exec (Fin 16) :=
  match o with
  | .register _ => orUnsupported o.vectorIndex?
  | _ => invalid

/-- The address of a vector operand, which may have to lie at a multiple of 16. -/
def vectorAddress (m : MemoryOperand) (aligned : Bool) : Exec Address := do
  let a ← linear m
  if aligned && a.toNat % 16 != 0 then fault .generalProtection
  return a

/-- Load a whole vector. -/
def loadVector (m : MemoryOperand) (aligned : Bool) : Exec Vector128 := do
  loadWord (← vectorAddress m aligned) 16

/-- A source that is a vector register or 16 bytes of memory. -/
def readVector (o : Operand) (aligned : Bool) : Exec Vector128 := do
  match o with
  | .register _ => vector (← vectorIndex o)
  | .memory m => loadVector m aligned
  | _ => invalid

/-- The low part of a vector register, a general register, or memory. -/
def readLow (o : Operand) (w : Width) : Exec (BitVec w.bits) := do
  match o with
  | .register (.xmm index) => return (← vector index).lane w 0
  | .register r => return (← readRegister r).setWidth w.bits
  | .memory m => load (← linear m) w
  | _ => invalid

/-- A one-byte constant operand. -/
def constant (i : Instruction) (index : Nat) : Exec Nat := do
  match ← i.operand index with
  | .immediate value _ => return (value.setWidth 8).toNat
  | _ => invalid

/-! ### Moves -/

/-- A move of a whole vector. -/
def moveVector (aligned : Bool) (i : Instruction) : Exec Unit := do
  let dst ← i.operand 0
  let src ← i.operand 1
  match dst with
  | .register _ =>
    let d ← vectorIndex dst
    setVector d (← readVector src aligned)
  | .memory m =>
    let value ← vector (← vectorIndex src)
    let a ← vectorAddress m aligned
    storeWord a 16 value
  | _ => invalid

/-- A move of a doubleword or quadword; a vector destination is cleared above it. -/
def moveWord (w : Width) (i : Instruction) : Exec Unit := do
  let dst ← i.operand 0
  let value ← readLow (← i.operand 1) w
  match dst with
  | .register (.xmm index) => setVector index (value.setWidth 128)
  | _ => writeOperand dst w value

/-- A move of one number: between registers it replaces the low lane, a load clears the rest. -/
def moveScalar (w : Width) (i : Instruction) : Exec Unit := do
  let dst ← i.operand 0
  let src ← i.operand 1
  match dst, src with
  | .register _, .register _ =>
    let d ← vectorIndex dst
    let low := (← vector (← vectorIndex src)).lane w 0
    setVector d ((← vector d).withLowLane w low)
  | .register _, .memory _ =>
    let d ← vectorIndex dst
    setVector d ((← readLow src w).setWidth 128)
  | .memory m, .register _ =>
    let value ← vector (← vectorIndex src)
    let a ← linear m
    store a w (value.lane w 0)
  | _, _ => invalid

/-- The vector with one half replaced. -/
def withHalf (v : Vector128) (high : Bool) (half : BitVec 64) : Vector128 :=
  if high then half ++ (v.lane .qword 0 : BitVec 64) else (v.lane .qword 1 : BitVec 64) ++ half

/-- A move of one half of a register to or from memory. -/
def moveHalf (high : Bool) (i : Instruction) : Exec Unit := do
  let dst ← i.operand 0
  let src ← i.operand 1
  match dst, src with
  | .register _, .memory m =>
    let d ← vectorIndex dst
    let half ← load (← linear m) .qword
    setVector d (withHalf (← vector d) high half)
  | .memory m, .register _ =>
    let value ← vector (← vectorIndex src)
    let a ← linear m
    store a .qword (value.lane .qword (if high then 1 else 0))
  | _, _ => invalid

/-- A move of one half of a register to the other half of another. -/
def moveAcross (fromHigh : Bool) (i : Instruction) : Exec Unit := do
  let d ← vectorIndex (← i.operand 0)
  let src ← vector (← vectorIndex (← i.operand 1))
  setVector d (withHalf (← vector d) (!fromHigh) (src.lane .qword (if fromHigh then 1 else 0)))

/-! ### Packed integers -/

/-- A packed integer operation. -/
def packed (op : PackedOp) (i : Instruction) : Exec Unit := do
  let d ← vectorIndex (← i.operand 0)
  let src ← readVector (← i.operand 1) true
  setVector d (op.apply (← vector d) src)

/-- A shift of all lanes by a constant or by the low half of a vector. -/
def packedShift (op : LaneShift) (w : Width) (i : Instruction) : Exec Unit := do
  let d ← vectorIndex (← i.operand 0)
  let count ← match ← i.operand 1 with
    | .immediate value _ => pure (value.setWidth 8).toNat
    | src => do pure ((← readVector src true).lane .qword 0).toNat
  setVector d (op.apply w (← vector d) count)

/-- A shift of a whole register by bytes. -/
def byteShift (left : Bool) (i : Instruction) : Exec Unit := do
  let d ← vectorIndex (← i.operand 0)
  let count ← constant i 1
  setVector d ((← vector d).shiftBytes left count)

/-- A rearrangement of lanes. -/
def shuffle (op : ShuffleOp) (i : Instruction) : Exec Unit := do
  let d ← vectorIndex (← i.operand 0)
  let src ← readVector (← i.operand 1) true
  let selectors ← constant i 2
  setVector d (op.apply (← vector d) src selectors)

/-- The width of the lanes that a sign-mask instruction looks at. -/
def SignMaskOp.width : SignMaskOp → Width
  | .pmovmskb => .byte
  | .movmskps => .dword
  | .movmskpd => .qword

/-- The sign bits of all lanes as a number. -/
def signMask (op : SignMaskOp) (i : Instruction) : Exec Unit := do
  let dst ← i.operand 0
  let v ← vector (← vectorIndex (← i.operand 1))
  let w ← dst.width
  writeOperand dst w (BitVec.ofNat _ (v.signMask (SignMaskOp.width op)))

/-- A word of a vector, for a general register or for two bytes of memory. -/
def extractWord (i : Instruction) : Exec Unit := do
  let dst ← i.operand 0
  let v ← vector (← vectorIndex (← i.operand 1))
  let word := v.lane .word ((← constant i 2) % 8)
  match dst with
  | .register _ =>
    let w ← dst.width
    writeOperand dst w (word.setWidth _)
  | _ => writeOperand dst .word word

/-- A vector with one word replaced. -/
def insertWord (i : Instruction) : Exec Unit := do
  let d ← vectorIndex (← i.operand 0)
  let word ← readLow (← i.operand 1) .word
  let slot := (← constant i 2) % 8
  let v ← vector d
  setVector d (Vector128.ofLanes .word fun k => if k = slot then word else v.lane .word k)

end Exec

end LongMode
