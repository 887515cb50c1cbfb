import LongMode.Decode.Form

/-!
Short names for the operand forms and entries that opcode tables are written with. The letters are
those of the instruction-set manuals: `E` for the `rm` field, `G` for the `reg` field, `I` for a
constant; `b`, `w`, `d` and `v` for a byte, a word, a doubleword and the operand size.
-/

set_option autoImplicit false
set_option relaxedAutoImplicit false

namespace LongMode.Decode.Opcode

/-- A byte register or memory. -/
abbrev Eb : Form := .rm (.fixed .byte)
/-- A word register or memory. -/
abbrev Ew : Form := .rm (.fixed .word)
/-- A doubleword register or memory. -/
abbrev Ed : Form := .rm (.fixed .dword)
/-- A register or memory of the operand size. -/
abbrev Ev : Form := .rm .operand
/-- A register or memory of eight bytes with REX.W, otherwise four. -/
abbrev Ey : Form := .rm .dwordOrQword
/-- A register of the operand size, or a word in memory. -/
abbrev Rv_Mw : Form := .rmOr .operand 2
/-- A byte register. -/
abbrev Gb : Form := .reg (.fixed .byte)
/-- A doubleword register. -/
abbrev Gd : Form := .reg (.fixed .dword)
/-- A register of the operand size. -/
abbrev Gv : Form := .reg .operand
/-- A register of eight bytes with REX.W, otherwise four. -/
abbrev Gy : Form := .reg .dwordOrQword
/-- A one-byte constant. -/
abbrev Ib : Form := .imm8
/-- A one-byte constant extended to the operand size. -/
abbrev Ibs : Form := .imm8Signed
/-- A two-byte constant. -/
abbrev Iw : Form := .imm16
/-- A constant of the operand size, of at most four bytes. -/
abbrev Iz : Form := .imm
/-- The low accumulator byte. -/
abbrev AL : Form := .accumulator (.fixed .byte)
/-- The accumulator at the operand size. -/
abbrev rAX : Form := .accumulator .operand
/-- The accumulator at the operand size, at most four bytes. -/
abbrev eAX : Form := .accumulator .upToDword
/-- The count register's low byte. -/
abbrev CL : Form := .fixed (.general .byte Register.rcx)
/-- The register that names a device. -/
abbrev DX : Form := .fixed (.general .word Register.rdx)
/-- A vector register by the `reg` field. -/
abbrev V : Form := .xmm
/-- A vector register or 16 bytes of memory. -/
abbrev W : Form := .xmmRm 16
/-- A vector register or `bytes` bytes of memory. -/
abbrev Wn (bytes : Nat) : Form := .xmmRm bytes
/-- A 64-bit vector register by the `reg` field. -/
abbrev P : Form := .mmx
/-- A 64-bit vector register or eight bytes of memory. -/
abbrev Q : Form := .mmxRm 8

/-- An instruction without ModRM byte. -/
def plain (m : Mnemonic) (forms : List Form := []) : Entry :=
  .plain { mnemonic := m, forms }

/-- An instruction without ModRM byte that the machine does not execute. -/
def plainOther (name : String) (forms : List Form := []) : Entry :=
  plain (.other name) forms

/-- An instruction with a ModRM byte of any form. -/
def any (m : Mnemonic) (forms : List Form) : Entry :=
  .modRm fun _ => some { mnemonic := m, forms }

/-- An instruction with a ModRM byte that may be locked. -/
def lockable (m : Mnemonic) (forms : List Form) : Entry :=
  .modRm fun _ => some { mnemonic := m, forms, lockable := true }

/-- An instruction whose `rm` field has to stand for memory. -/
def memoryOnly (m : Mnemonic) (forms : List Form) : Entry :=
  .modRm fun r => if r.isMemory then some { mnemonic := m, forms } else none

/-- An instruction whose `rm` field has to name a register. -/
def registerOnly (m : Mnemonic) (forms : List Form) : Entry :=
  .modRm fun r => if r.isRegister then some { mnemonic := m, forms } else none

/-- One of two instructions, for memory and for a register. -/
def memoryOr (memory register : Option Spec) : Entry :=
  .modRm fun r => if r.isMemory then memory else register

/-- The specification of an instruction without special properties. -/
def basic (m : Mnemonic) (forms : List Form) : Option Spec :=
  some { mnemonic := m, forms }

/-- The specification of an instruction that the machine does not execute. -/
def other (name : String) (forms : List Form := []) : Option Spec :=
  basic (.other name) forms

/-- An entry only in 64-bit code. -/
def only64 (c : Context) (entry : Entry) : Entry :=
  if c.is64 then entry else .invalid

/-- An entry only outside 64-bit code. -/
def not64 (c : Context) (entry : Entry) : Entry :=
  if c.is64 then .invalid else entry

/-- An entry whose repeat prefix belongs to the opcode. -/
def ownRepeat : Entry → Entry
  | .invalid => .invalid
  | .plain s => .plain { s with ownsRepeat := true }
  | .modRm select => .modRm fun r => (select r).map fun s => { s with ownsRepeat := true }

/-- One of four entries by the mandatory prefix. -/
def byPrefix (c : Context) (none' p66 pF3 pF2 : Entry) : Entry :=
  match c.selector with
  | .none => none'
  | .p66 => p66
  | .pF3 => ownRepeat pF3
  | .pF2 => ownRepeat pF2

/-- An entry without mandatory prefix and another under the operand-size prefix. -/
def by66 (c : Context) (none' p66 : Entry) : Entry :=
  byPrefix c none' p66 .invalid .invalid

/-- An entry only without mandatory prefix. -/
def unprefixed (c : Context) (entry : Entry) : Entry :=
  byPrefix c entry .invalid .invalid .invalid

/-- An entry only under the operand-size prefix. -/
def only66 (c : Context) (entry : Entry) : Entry :=
  byPrefix c .invalid entry .invalid .invalid

end LongMode.Decode.Opcode
