import LongMode.Register.Flags
import LongMode.Register.Width

/-!
Mnemonics: what an instruction does, apart from its operands. Instructions that the machine executes
have a constructor of their own, with a parameter where a family shares one rule; every other
instruction that the decoder knows is `other` with its name. `Mnemonic.name` is the spelling in
reports.
-/

set_option autoImplicit false
set_option relaxedAutoImplicit false

namespace LongMode

/-- Two-operand arithmetic and logic that stores its result. -/
inductive AluOp where
  | add
  | or
  | adc
  | sbb
  | and
  | sub
  | xor
  deriving DecidableEq, Repr

/-- The spelling of an arithmetic operation. -/
def AluOp.name : AluOp → String
  | .add => "Add"
  | .or => "Or"
  | .adc => "Adc"
  | .sbb => "Sbb"
  | .and => "And"
  | .sub => "Sub"
  | .xor => "Xor"

/-- One-operand arithmetic. -/
inductive UnaryOp where
  | inc
  | dec
  | neg
  | not
  deriving DecidableEq, Repr

/-- The spelling of a one-operand operation. -/
def UnaryOp.name : UnaryOp → String
  | .inc => "Inc"
  | .dec => "Dec"
  | .neg => "Neg"
  | .not => "Not"

/-- What a bit instruction does to the selected bit after testing it. -/
inductive BitOp where
  | test
  | set
  | reset
  | complement
  deriving DecidableEq, Repr

/-- The spelling of a bit instruction. -/
def BitOp.name : BitOp → String
  | .test => "Bt"
  | .set => "Bts"
  | .reset => "Btr"
  | .complement => "Btc"

/-- Shifts and rotates; `sal` is the second encoding of `shl`. -/
inductive ShiftOp where
  | shl
  | sal
  | shr
  | sar
  | rol
  | ror
  deriving DecidableEq, Repr

/-- The spelling of a shift. -/
def ShiftOp.name : ShiftOp → String
  | .shl => "Shl"
  | .sal => "Sal"
  | .shr => "Shr"
  | .sar => "Sar"
  | .rol => "Rol"
  | .ror => "Ror"

/-- What besides the counter ends a counted loop. -/
inductive LoopKind where
  | always
  | whileEqual
  | whileNotEqual
  deriving DecidableEq, Repr

/-- The spelling of a loop instruction. -/
def LoopKind.name : LoopKind → String
  | .always => "Loop"
  | .whileEqual => "Loope"
  | .whileNotEqual => "Loopne"

/-- String operations. -/
inductive StringOp where
  | movs
  | stos
  | lods
  | cmps
  | scas
  deriving DecidableEq, Repr

/-- The spelling of a string operation without its width. -/
def StringOp.name : StringOp → String
  | .movs => "Movs"
  | .stos => "Stos"
  | .lods => "Lods"
  | .cmps => "Cmps"
  | .scas => "Scas"

/-- Instructions that change the carry or direction flag and nothing else. -/
inductive FlagOp where
  | clc
  | stc
  | cmc
  | cld
  | std
  deriving DecidableEq, Repr

/-- The spelling of a flag instruction. -/
def FlagOp.name : FlagOp → String
  | .clc => "Clc"
  | .stc => "Stc"
  | .cmc => "Cmc"
  | .cld => "Cld"
  | .std => "Std"

/-- Instructions without effect on registers and memory. -/
inductive NopOp where
  | nop
  | pause
  | endbr64
  | endbr32
  | prefetchnta
  | prefetcht0
  | prefetcht1
  | prefetcht2
  | prefetchw
  | lfence
  | mfence
  | sfence
  deriving DecidableEq, Repr

/-- The spelling of an instruction without effect. -/
def NopOp.name : NopOp → String
  | .nop => "Nop"
  | .pause => "Pause"
  | .endbr64 => "Endbr64"
  | .endbr32 => "Endbr32"
  | .prefetchnta => "Prefetchnta"
  | .prefetcht0 => "Prefetcht0"
  | .prefetcht1 => "Prefetcht1"
  | .prefetcht2 => "Prefetcht2"
  | .prefetchw => "Prefetchw"
  | .lfence => "Lfence"
  | .mfence => "Mfence"
  | .sfence => "Sfence"

/-- Instructions that only the supervisor may execute. -/
inductive PrivilegedOp where
  | hlt
  | cli
  | sti
  | input
  | output
  | insb
  | insw
  | insd
  | outsb
  | outsw
  | outsd
  | lgdt
  | lidt
  | lldt
  | ltr
  | invlpg
  | rdmsr
  | wrmsr
  | wbinvd
  | invd
  | clts
  deriving DecidableEq, Repr

/-- The spelling of a privileged instruction. -/
def PrivilegedOp.name : PrivilegedOp → String
  | .hlt => "Hlt"
  | .cli => "Cli"
  | .sti => "Sti"
  | .input => "In"
  | .output => "Out"
  | .insb => "Insb"
  | .insw => "Insw"
  | .insd => "Insd"
  | .outsb => "Outsb"
  | .outsw => "Outsw"
  | .outsd => "Outsd"
  | .lgdt => "Lgdt"
  | .lidt => "Lidt"
  | .lldt => "Lldt"
  | .ltr => "Ltr"
  | .invlpg => "Invlpg"
  | .rdmsr => "Rdmsr"
  | .wrmsr => "Wrmsr"
  | .wbinvd => "Wbinvd"
  | .invd => "Invd"
  | .clts => "Clts"

/-- Moves of whole vector registers. -/
inductive VectorMove where
  | movdqa
  | movaps
  | movapd
  | movntdq
  | movntps
  | movntpd
  | movdqu
  | movups
  | movupd
  deriving DecidableEq, Repr

namespace VectorMove

/-- The spelling of a vector move. -/
def name : VectorMove → String
  | movdqa => "Movdqa"
  | movaps => "Movaps"
  | movapd => "Movapd"
  | movntdq => "Movntdq"
  | movntps => "Movntps"
  | movntpd => "Movntpd"
  | movdqu => "Movdqu"
  | movups => "Movups"
  | movupd => "Movupd"

/-- Whether the memory operand has to lie at a multiple of 16. -/
def aligned : VectorMove → Bool
  | movdqu | movups | movupd => false
  | _ => true

end VectorMove

/-- Moves of one half of a vector register to or from memory. -/
inductive HalfMove where
  | movlps
  | movlpd
  | movhps
  | movhpd
  deriving DecidableEq, Repr

namespace HalfMove

/-- The spelling of a half move. -/
def name : HalfMove → String
  | movlps => "Movlps"
  | movlpd => "Movlpd"
  | movhps => "Movhps"
  | movhpd => "Movhpd"

/-- Whether the upper half moves. -/
def high : HalfMove → Bool
  | movlps | movlpd => false
  | movhps | movhpd => true

end HalfMove

/-- Lane-wise integer operations on vector registers. -/
inductive PackedOp where
  | pxor | xorps | xorpd
  | pand | andps | andpd
  | por | orps | orpd
  | pandn | andnps | andnpd
  | paddb | paddw | paddd | paddq
  | psubb | psubw | psubd | psubq
  | pcmpeqb | pcmpeqw | pcmpeqd
  | pcmpgtb | pcmpgtw | pcmpgtd
  | pminub | pmaxub | pminsw | pmaxsw
  | punpcklbw | punpcklwd | punpckldq | punpcklqdq
  | punpckhbw | punpckhwd | punpckhdq | punpckhqdq
  | unpcklps | unpckhps | unpcklpd | unpckhpd
  deriving DecidableEq, Repr

/-- The spelling of a packed operation. -/
def PackedOp.name : PackedOp → String
  | .pxor => "Pxor" | .xorps => "Xorps" | .xorpd => "Xorpd"
  | .pand => "Pand" | .andps => "Andps" | .andpd => "Andpd"
  | .por => "Por" | .orps => "Orps" | .orpd => "Orpd"
  | .pandn => "Pandn" | .andnps => "Andnps" | .andnpd => "Andnpd"
  | .paddb => "Paddb" | .paddw => "Paddw" | .paddd => "Paddd" | .paddq => "Paddq"
  | .psubb => "Psubb" | .psubw => "Psubw" | .psubd => "Psubd" | .psubq => "Psubq"
  | .pcmpeqb => "Pcmpeqb" | .pcmpeqw => "Pcmpeqw" | .pcmpeqd => "Pcmpeqd"
  | .pcmpgtb => "Pcmpgtb" | .pcmpgtw => "Pcmpgtw" | .pcmpgtd => "Pcmpgtd"
  | .pminub => "Pminub" | .pmaxub => "Pmaxub" | .pminsw => "Pminsw" | .pmaxsw => "Pmaxsw"
  | .punpcklbw => "Punpcklbw" | .punpcklwd => "Punpcklwd"
  | .punpckldq => "Punpckldq" | .punpcklqdq => "Punpcklqdq"
  | .punpckhbw => "Punpckhbw" | .punpckhwd => "Punpckhwd"
  | .punpckhdq => "Punpckhdq" | .punpckhqdq => "Punpckhqdq"
  | .unpcklps => "Unpcklps" | .unpckhps => "Unpckhps"
  | .unpcklpd => "Unpcklpd" | .unpckhpd => "Unpckhpd"

/-- The direction and kind of a shift of lanes. -/
inductive LaneShift where
  | left
  | right
  | arithmetic
  deriving DecidableEq, Repr

/-- The spelling of a lane shift without its width. -/
def LaneShift.name : LaneShift → String
  | .left => "Psll"
  | .right => "Psrl"
  | .arithmetic => "Psra"

/-- Rearrangements of lanes under an immediate. -/
inductive ShuffleOp where
  | pshufd
  | pshuflw
  | pshufhw
  | shufps
  | shufpd
  deriving DecidableEq, Repr

/-- The spelling of a shuffle. -/
def ShuffleOp.name : ShuffleOp → String
  | .pshufd => "Pshufd"
  | .pshuflw => "Pshuflw"
  | .pshufhw => "Pshufhw"
  | .shufps => "Shufps"
  | .shufpd => "Shufpd"

/-- Collections of the sign bits of all lanes. -/
inductive SignMaskOp where
  | pmovmskb
  | movmskps
  | movmskpd
  deriving DecidableEq, Repr

namespace SignMaskOp

/-- The spelling of a sign-mask instruction. -/
def name : SignMaskOp → String
  | pmovmskb => "Pmovmskb"
  | movmskps => "Movmskps"
  | movmskpd => "Movmskpd"

end SignMaskOp

/-- The format of a floating-point number. -/
inductive Precision where
  | single
  | double
  deriving DecidableEq, Repr

namespace Precision

/-- The width of a number in bytes. -/
def bytes : Precision → Nat
  | single => 4
  | double => 8

/-- The letter for the format at the end of instruction names. -/
def letter : Precision → String
  | single => "s"
  | double => "d"

end Precision

/-- Floating-point arithmetic. -/
inductive FloatOp where
  | add
  | sub
  | mul
  | div
  | min
  | max
  | sqrt
  deriving DecidableEq, Repr

/-- The spelling of a floating-point operation without its format. -/
def FloatOp.name : FloatOp → String
  | .add => "Add"
  | .sub => "Sub"
  | .mul => "Mul"
  | .div => "Div"
  | .min => "Min"
  | .max => "Max"
  | .sqrt => "Sqrt"

/-- The `ss`, `sd`, `ps` or `pd` at the end of floating-point instruction names. -/
def floatSuffix (vector : Bool) (p : Precision) : String :=
  (if vector then "p" else "s") ++ p.letter

/-- What an instruction does, apart from its operands. -/
inductive Mnemonic where
  | alu (op : AluOp)
  | cmp
  | test
  | unary (op : UnaryOp)
  | xchg
  | xadd
  | cmpxchg
  | cmpxchg8b
  | cmpxchg16b
  | bit (op : BitOp)
  | bsf
  | bsr
  | tzcnt
  | lzcnt
  | popcnt
  | bswap
  | jmp
  | jcc (c : Condition)
  | call
  | ret
  | loop (kind : LoopKind)
  /-- A branch on a zero counter; `wide` for RCX, otherwise ECX. -/
  | jumpIfCounterZero (wide : Bool)
  | syscall
  | int3
  /-- One of the three instructions defined to be undefined. -/
  | undefined (number : Fin 3)
  | privileged (op : PrivilegedOp)
  | mov
  | movzx
  | movsx
  | movsxd
  | lea
  | push
  | pop
  | leave
  | cmov (c : Condition)
  | setcc (c : Condition)
  /-- Sign extension within the accumulator to the given width. -/
  | widenAccumulator (width : Width)
  /-- Sign extension of an accumulator of the given width into the data register. -/
  | widenPair (width : Width)
  | lahf
  | sahf
  | pushf (width : Width)
  | popf (width : Width)
  | flag (op : FlagOp)
  | nop (op : NopOp)
  | cpuid
  | rdtsc
  | mul
  | imul
  | div
  | idiv
  | shift (op : ShiftOp)
  /-- A shift that takes bits from a second operand; `left` for SHLD, otherwise SHRD. -/
  | doubleShift (left : Bool)
  | string (op : StringOp) (width : Width)
  | vectorMove (op : VectorMove)
  | movd
  | movq
  /-- A move of one floating-point number. -/
  | scalarMove (p : Precision)
  | halfMove (op : HalfMove)
  | movhlps
  | movlhps
  | movnti
  | packed (op : PackedOp)
  | packedShift (op : LaneShift) (width : Width)
  /-- A shift of the whole register by bytes. -/
  | byteShift (left : Bool)
  | shuffle (op : ShuffleOp)
  | signMask (op : SignMaskOp)
  | pextrw
  | pinsrw
  | floatArithmetic (op : FloatOp) (vector : Bool) (p : Precision)
  /-- A comparison into flags; `ordered` if every NaN is invalid. -/
  | floatFlags (ordered : Bool) (p : Precision)
  /-- A comparison into a mask under an immediate predicate. -/
  | floatMask (vector : Bool) (p : Precision)
  | intToFloat (p : Precision)
  | floatToInt (truncate : Bool) (p : Precision)
  /-- A conversion of one number to the other format. -/
  | changePrecision (source : Precision)
  | ldmxcsr
  | stmxcsr
  /-- An instruction that the machine does not execute. -/
  | other (name : String)
  deriving DecidableEq, Repr

namespace Mnemonic

/-- The names of sign extensions within the accumulator. -/
def widenAccumulatorName : Width → String
  | .byte | .word => "Cbw"
  | .dword => "Cwde"
  | .qword => "Cdqe"

/-- The names of sign extensions into the data register. -/
def widenPairName : Width → String
  | .byte | .word => "Cwd"
  | .dword => "Cdq"
  | .qword => "Cqo"

/-- The letter that pushes and pops of flags carry for their width. -/
def flagsSuffix : Width → String
  | .byte | .word => ""
  | .dword => "d"
  | .qword => "q"

/-- The spelling of a mnemonic. -/
def name : Mnemonic → String
  | alu op => op.name
  | cmp => "Cmp"
  | test => "Test"
  | unary op => op.name
  | xchg => "Xchg"
  | xadd => "Xadd"
  | cmpxchg => "Cmpxchg"
  | cmpxchg8b => "Cmpxchg8b"
  | cmpxchg16b => "Cmpxchg16b"
  | bit op => op.name
  | bsf => "Bsf"
  | bsr => "Bsr"
  | tzcnt => "Tzcnt"
  | lzcnt => "Lzcnt"
  | popcnt => "Popcnt"
  | bswap => "Bswap"
  | jmp => "Jmp"
  | jcc c => "J" ++ c.name
  | call => "Call"
  | ret => "Ret"
  | loop kind => kind.name
  | jumpIfCounterZero wide => if wide then "Jrcxz" else "Jecxz"
  | syscall => "Syscall"
  | int3 => "Int3"
  | undefined number => "Ud" ++ toString number.val
  | privileged op => op.name
  | mov => "Mov"
  | movzx => "Movzx"
  | movsx => "Movsx"
  | movsxd => "Movsxd"
  | lea => "Lea"
  | push => "Push"
  | pop => "Pop"
  | leave => "Leave"
  | cmov c => "Cmov" ++ c.name
  | setcc c => "Set" ++ c.name
  | widenAccumulator width => widenAccumulatorName width
  | widenPair width => widenPairName width
  | lahf => "Lahf"
  | sahf => "Sahf"
  | pushf width => "Pushf" ++ flagsSuffix width
  | popf width => "Popf" ++ flagsSuffix width
  | flag op => op.name
  | nop op => op.name
  | cpuid => "Cpuid"
  | rdtsc => "Rdtsc"
  | mul => "Mul"
  | imul => "Imul"
  | div => "Div"
  | idiv => "Idiv"
  | shift op => op.name
  | doubleShift left => if left then "Shld" else "Shrd"
  | string op width => op.name ++ width.suffix
  | vectorMove op => op.name
  | movd => "Movd"
  | movq => "Movq"
  | scalarMove p => "Movs" ++ p.letter
  | halfMove op => op.name
  | movhlps => "Movhlps"
  | movlhps => "Movlhps"
  | movnti => "Movnti"
  | packed op => op.name
  | packedShift op width => op.name ++ width.suffix
  | byteShift left => if left then "Pslldq" else "Psrldq"
  | shuffle op => op.name
  | signMask op => op.name
  | pextrw => "Pextrw"
  | pinsrw => "Pinsrw"
  | floatArithmetic op vector p => op.name ++ floatSuffix vector p
  | floatFlags ordered p => (if ordered then "Comis" else "Ucomis") ++ p.letter
  | floatMask vector p => "Cmp" ++ floatSuffix vector p
  | intToFloat p => "Cvtsi2s" ++ p.letter
  | floatToInt truncate p => (if truncate then "Cvtts" else "Cvts") ++ p.letter ++ "2si"
  | changePrecision .single => "Cvtss2sd"
  | changePrecision .double => "Cvtsd2ss"
  | ldmxcsr => "Ldmxcsr"
  | stmxcsr => "Stmxcsr"
  | other name => name

/-- The condition that a branch, move, set or loop tests. -/
def condition? : Mnemonic → Option Condition
  | jcc c | cmov c | setcc c => some c
  | loop .whileEqual => some .equal
  | loop .whileNotEqual => some .notEqual
  | _ => none

end Mnemonic

end LongMode
