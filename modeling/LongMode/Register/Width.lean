/-!
Operand widths. General instructions work on operands of one, two, four or eight bytes; every value
of width `w` is a `BitVec w.bits`.
-/

set_option autoImplicit false
set_option relaxedAutoImplicit false

namespace LongMode

/-- The width of a general operand. -/
inductive Width where
  | byte
  | word
  | dword
  | qword
  deriving DecidableEq, Repr

namespace Width

/-- The width in bytes. -/
def bytes : Width → Nat
  | byte => 1
  | word => 2
  | dword => 4
  | qword => 8

/-- The width in bits. -/
abbrev bits (w : Width) : Nat :=
  8 * w.bytes

/-- The number of values of a width. -/
def modulus : Width → Nat
  | byte => 0x100
  | word => 0x10000
  | dword => 0x100000000
  | qword => 0x10000000000000000

/-- The word whose low bits, as many as a width has, are set. -/
def mask (w : Width) : BitVec 64 :=
  if 64 ≤ w.bits then BitVec.allOnes 64 else (1#64 <<< w.bits) - 1

/-- The width of a given number of bytes. -/
def ofBytes? : Nat → Option Width
  | 1 => some byte
  | 2 => some word
  | 4 => some dword
  | 8 => some qword
  | _ => none

/-- The letter that marks the width at the end of a string instruction's name. -/
def suffix : Width → String
  | byte => "b"
  | word => "w"
  | dword => "d"
  | qword => "q"

end Width

end LongMode
