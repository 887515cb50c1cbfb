import LongMode.Decode.Opcode.Extended
import LongMode.Decode.Opcode.FloatingPoint
import LongMode.Decode.Opcode.ThreeByte

/-!
The decoder. `decode` looks at no more than the first fifteen bytes of a window and answers with an
instruction or with one of three errors: no instruction begins like this, the window is too short
for the instruction that it begins, or the instruction is of an encoding that is never executed.

A window that ends inside an instruction counts as too short only if some continuation of at most
fifteen bytes is an instruction, and the one tried is zeros: opcodes that are invalid whatever
follows are reported as such.
-/

set_option autoImplicit false
set_option relaxedAutoImplicit false

namespace LongMode.Decode

/-- The greatest length of an instruction. -/
def maxLength : Nat := 15

/-- What a reader of instructions finds. -/
inductive Finding where
  /-- An instruction, once its length is known. -/
  | instruction (ofLength : Nat → Instruction)
  /-- An instruction of an encoding that is never executed. -/
  | extended

/-- Read an instruction of an opcode map. -/
def readEntry (c : Context) (op : Nat) (entry : Entry) (modRmByte : Option Nat := none) :
    Reader Finding := do
  return .instruction (← entry.read c op modRmByte)

/-- Read an instruction that is never executed. -/
def readExtended (r : Reader Unit) : Reader Finding := do
  r
  return .extended

/-- Read an opcode that is shared between an instruction of the one-byte map, chosen by `plain` on
the byte after it, and an extended encoding. -/
def readShared (c : Context) (op : Nat) (plain : Nat → Bool) (extended : Nat → Reader Unit) :
    Reader Finding := do
  let b ← Reader.next
  if plain b then readEntry c op (Opcode.oneByte c op) (some b)
  else readExtended (extended b)

/-- Read what follows the escape byte 0F. -/
def readEscaped (c : Context) : Reader Finding := do
  let op ← Reader.next
  match op with
  | 0x0f => readExtended (Extended.readPackedFloat c)
  | 0x38 =>
    let op ← Reader.next
    readEntry c op (Opcode.map38 c op)
  | 0x3a =>
    let op ← Reader.next
    readEntry c op (Opcode.map3A c op)
  | _ => readEntry c op (Opcode.twoByte c op)

/-- Read what follows the prefixes. Outside 64-bit code the bytes of VEX and EVEX prefixes are
instructions if the byte after them stands for memory. -/
def readOpcode (c : Context) (op : Nat) : Reader Finding :=
  let legacy (b : Nat) : Bool := !c.is64 && (ModRm.ofByte b).isMemory
  match op with
  | 0x0f => readEscaped c
  | 0x62 => readShared c op legacy (Extended.readEvex c)
  | 0xc4 => readShared c op legacy (Extended.readVex c true)
  | 0xc5 => readShared c op legacy (Extended.readVex c false)
  | 0x8f => readShared c op (· % 32 < 8) (Extended.readXop c)
  | _ =>
    if op / 8 = 0x1b then readEntry c op (Opcode.floatingPoint c op)
    else readEntry c op (Opcode.oneByte c op)

/-- Read one instruction. -/
def reader (mode : Mode) (address : Address) : Reader Finding := do
  let (prefixes, op) ← PrefixState.read mode maxLength {}
  readOpcode { mode, address, prefixes } op

/-- Read one instruction from a window and say how it ended. -/
def attempt (mode : Mode) (address : Address) (window : List UInt8) : Reader.Outcome Finding :=
  (reader mode address).run 0 window

/-- A window filled up with zeros to the greatest length of an instruction. -/
def padded (window : List UInt8) : List UInt8 :=
  window ++ List.replicate (maxLength - window.length) 0

/-- The error for a window that ends inside an instruction. -/
def truncation (mode : Mode) (address : Address) (window : List UInt8) : DecodeError :=
  match attempt mode address (padded window) with
  | .complete _ _ => .truncated
  | _ => .invalidOpcode

end Decode

/-- Decode the instruction at an address from the bytes found there. -/
def decode (mode : Mode) (address : Address) (bytes : List UInt8) :
    Except DecodeError Instruction :=
  let window := bytes.take Decode.maxLength
  if window.isEmpty then .error .truncated
  else
    match Decode.attempt mode address window with
    | .complete (.instruction ofLength) length => .ok (ofLength length)
    | .complete .extended _ => .error .unsupported
    | .rejected => .error .invalidOpcode
    | .truncated => .error (Decode.truncation mode address window)

end LongMode
