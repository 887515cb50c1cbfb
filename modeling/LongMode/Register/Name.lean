import LongMode.Register.Width

/-!
Register names. A general register is named by its width and its number, with four extra names for
the second byte of the first four; the other banks are named by number. `Register.name` is the
assembler's name, and `Register.ofName?` finds the names of the registers that a thread has.
-/

set_option autoImplicit false
set_option relaxedAutoImplicit false

namespace LongMode

/-- The segment registers, in encoding order. -/
inductive Segment where
  | es
  | cs
  | ss
  | ds
  | fs
  | gs
  deriving DecidableEq, Repr

namespace Segment

/-- All segment registers in encoding order. -/
def all : List Segment := [es, cs, ss, ds, fs, gs]

/-- The number of a segment register. -/
def index : Segment → Fin 6
  | es => 0
  | cs => 1
  | ss => 2
  | ds => 3
  | fs => 4
  | gs => 5

/-- The segment register of a given number. -/
def ofNat? (n : Nat) : Option Segment :=
  all[n]?

/-- The assembler's name of a segment register. -/
def name : Segment → String
  | es => "ES"
  | cs => "CS"
  | ss => "SS"
  | ds => "DS"
  | fs => "FS"
  | gs => "GS"

end Segment

/-- A register that an instruction can name. -/
inductive Register where
  /-- The low `width` bytes of a general register. -/
  | general (width : Width) (index : Fin 16)
  /-- The second byte of one of the first four general registers. -/
  | highByte (index : Fin 4)
  /-- A segment selector. -/
  | segment (s : Segment)
  /-- The instruction pointer; `wide` for all 64 bits, otherwise the low 32. -/
  | instructionPointer (wide : Bool)
  /-- A 128-bit vector register. -/
  | xmm (index : Fin 16)
  /-- A 64-bit vector register. -/
  | mmx (index : Fin 8)
  /-- A register of the floating-point stack. -/
  | stack (index : Fin 8)
  /-- A control register. -/
  | control (index : Fin 16)
  /-- A debug register. -/
  | debug (index : Fin 16)
  deriving DecidableEq, Repr

namespace Register

/-- The numbers of the general registers that the instruction set gives a role. -/
abbrev rax : Fin 16 := 0
/-- See `rax`. -/
abbrev rcx : Fin 16 := 1
/-- See `rax`. -/
abbrev rdx : Fin 16 := 2
/-- See `rax`. -/
abbrev rbx : Fin 16 := 3
/-- See `rax`. -/
abbrev rsp : Fin 16 := 4
/-- See `rax`. -/
abbrev rbp : Fin 16 := 5
/-- See `rax`. -/
abbrev rsi : Fin 16 := 6
/-- See `rax`. -/
abbrev rdi : Fin 16 := 7
/-- See `rax`. -/
abbrev r8 : Fin 16 := 8
/-- See `rax`. -/
abbrev r9 : Fin 16 := 9
/-- See `rax`. -/
abbrev r10 : Fin 16 := 10
/-- See `rax`. -/
abbrev r11 : Fin 16 := 11

/-- The general register of a number, counted modulo 16. -/
def ofNumber (width : Width) (n : Nat) : Register :=
  .general width (Fin.ofNat 16 n)

/-- The second-byte register of a number, counted modulo 4. -/
def highByteOfNumber (n : Nat) : Register :=
  .highByte (Fin.ofNat 4 n)

/-- The 128-bit vector register of a number, counted modulo 16. -/
def xmmOfNumber (n : Nat) : Register :=
  .xmm (Fin.ofNat 16 n)

/-- The 64-bit vector register of a number, counted modulo 8. -/
def mmxOfNumber (n : Nat) : Register :=
  .mmx (Fin.ofNat 8 n)

/-- The floating-point register of a number, counted modulo 8. -/
def stackOfNumber (n : Nat) : Register :=
  .stack (Fin.ofNat 8 n)

/-- The control register of a number, counted modulo 16. -/
def controlOfNumber (n : Nat) : Register :=
  .control (Fin.ofNat 16 n)

/-- The debug register of a number, counted modulo 16. -/
def debugOfNumber (n : Nat) : Register :=
  .debug (Fin.ofNat 16 n)

/-- The two-letter stems of the first eight general registers. -/
def stems : Vector String 8 :=
  #v["AX", "CX", "DX", "BX", "SP", "BP", "SI", "DI"]

/-- The low-byte names of the first eight general registers. -/
def byteNames : Vector String 8 :=
  #v["AL", "CL", "DL", "BL", "SPL", "BPL", "SIL", "DIL"]

/-- The second-byte names of the first four general registers. -/
def highByteNames : Vector String 4 :=
  #v["AH", "CH", "DH", "BH"]

/-- The name of a general register at a width. -/
def generalName (width : Width) (index : Fin 16) : String :=
  if h : index.val < 8 then
    match width with
    | .byte => byteNames[index.val]
    | .word => stems[index.val]
    | .dword => "E" ++ stems[index.val]
    | .qword => "R" ++ stems[index.val]
  else
    "R" ++ toString index.val ++
      match width with
      | .byte => "L"
      | .word => "W"
      | .dword => "D"
      | .qword => ""

/-- The assembler's name of a register. -/
def name : Register → String
  | general width index => generalName width index
  | highByte index => highByteNames[index.val]
  | segment s => s.name
  | instructionPointer wide => if wide then "RIP" else "EIP"
  | xmm index => "XMM" ++ toString index.val
  | mmx index => "MM" ++ toString index.val
  | stack index => "ST" ++ toString index.val
  | control index => "CR" ++ toString index.val
  | debug index => "DR" ++ toString index.val

/-- The width of a register in bytes. -/
def size : Register → Nat
  | general width _ => width.bytes
  | highByte _ => 1
  | segment _ => 2
  | instructionPointer wide => if wide then 8 else 4
  | xmm _ => 16
  | mmx _ => 8
  | stack _ => 10
  | control _ => 8
  | debug _ => 8

/-- The registers that the name look-up knows. -/
def named : List Register :=
  [Width.byte, .word, .dword, .qword].flatMap (fun w => (List.finRange 16).map (general w))
    ++ (List.finRange 4).map highByte
    ++ Segment.all.map segment
    ++ [instructionPointer true, instructionPointer false]
    ++ (List.finRange 16).map xmm
    ++ (List.finRange 8).map mmx
    ++ (List.finRange 8).map stack
    ++ (List.finRange 16).map control
    ++ (List.finRange 16).map debug

/-- The register of a given name. -/
def ofName? (text : String) : Option Register :=
  named.find? (·.name == text)

end Register

end LongMode
