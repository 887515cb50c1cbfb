import LongMode.Decode.Opcode.Shorthand

/-!
The one-byte opcode map. Every row answers for sixteen opcodes or for a block of equal ones; escapes
to other maps and the prefixes are taken out before. Rows of the floating-point stack are in a table
of their own.
-/

set_option autoImplicit false
set_option relaxedAutoImplicit false

namespace LongMode.Decode.Opcode

/-- The arithmetic operation of a three-bit code; the last one is a comparison. -/
def arithmetic : Nat → Mnemonic
  | 0 => .alu .add
  | 1 => .alu .or
  | 2 => .alu .adc
  | 3 => .alu .sbb
  | 4 => .alu .and
  | 5 => .alu .sub
  | 6 => .alu .xor
  | _ => .cmp

/-- Whether the arithmetic operation of a code stores a result, so that it may be locked. -/
def arithmeticStores (code : Nat) : Bool :=
  code != 7

/-- A push or pop. -/
def stackSpec (m : Mnemonic) (forms : List Form) (slots : Int) : Spec :=
  { mnemonic := m, forms, size := .stack, stack := .slots slots }

/-- A push. -/
def pushEntry (form : Form) : Entry :=
  .plain (stackSpec .push [form] (-1))

/-- A pop. -/
def popEntry (form : Form) : Entry :=
  .plain (stackSpec .pop [form] 1)

/-- A push of a segment register. -/
def pushSegment (s : Segment) : Entry :=
  pushEntry (.fixed (.segment s))

/-- A pop of a segment register. -/
def popSegment (s : Segment) : Entry :=
  popEntry (.fixed (.segment s))

/-- Opcodes 00 to 3F: arithmetic in six forms, with segment pushes and decimal adjustments
between. -/
def rows0To3 (c : Context) (op : Nat) : Entry :=
  let code := op / 8
  let m := arithmetic code
  let entry (forms : List Form) : Entry := any m forms
  let storing (forms : List Form) : Entry :=
    if arithmeticStores code then lockable m forms else any m forms
  match op % 8 with
  | 0 => storing [Eb, Gb]
  | 1 => storing [Ev, Gv]
  | 2 => entry [Gb, Eb]
  | 3 => entry [Gv, Ev]
  | 4 => plain m [AL, Ib]
  | 5 => plain m [rAX, Iz]
  | _ =>
    not64 c <|
      match op with
      | 0x06 => pushSegment .es
      | 0x07 => popSegment .es
      | 0x0e => pushSegment .cs
      | 0x16 => pushSegment .ss
      | 0x17 => popSegment .ss
      | 0x1e => pushSegment .ds
      | 0x1f => popSegment .ds
      | 0x27 => plainOther "Daa"
      | 0x2f => plainOther "Das"
      | 0x37 => plainOther "Aaa"
      | 0x3f => plainOther "Aas"
      | _ => .invalid

/-- Opcodes 40 to 5F: increments and decrements outside 64-bit code, pushes and pops. -/
def rows4To5 (c : Context) (op : Nat) : Entry :=
  if op < 0x48 then not64 c (plain (.unary .inc) [.opcodeReg .operand])
  else if op < 0x50 then not64 c (plain (.unary .dec) [.opcodeReg .operand])
  else if op < 0x58 then pushEntry (.opcodeReg .operand)
  else popEntry (.opcodeReg .operand)

/-- A string instruction that transfers to or from a device. -/
def portString (op : PrivilegedOp) (forms : List Form) (element : Nat) : Entry :=
  .plain { mnemonic := .privileged op, forms, element }

/-- The width in bytes of an element of a transfer with a device under an operand size. -/
def portElement (c : Context) : Nat :=
  if c.standardSize = .word then 2 else 4

/-- Opcodes 60 to 6F. -/
def row6 (c : Context) (op : Nat) : Entry :=
  let short := c.standardSize == .word
  match op with
  | 0x60 => not64 c (.plain
      { mnemonic := .other (if short then "Pusha" else "Pushad"), stack := .slots (-8) })
  | 0x61 => not64 c (.plain
      { mnemonic := .other (if short then "Popa" else "Popad"), stack := .slots 8 })
  | 0x62 => not64 c (memoryOnly (.other "Bound") [Gv, .memory (2 * c.standardSize.bytes)])
  | 0x63 =>
    if c.is64 then
      any .movsxd [Gv, if short then Ew else Ed]
    else any (.other "Arpl") [.rmOr .operand 2, Gv]
  | 0x68 => pushEntry Iz
  | 0x69 => any .imul [Gv, Ev, Iz]
  | 0x6a => pushEntry Ibs
  | 0x6b => any .imul [Gv, Ev, Ibs]
  | 0x6c => portString .insb [.string, DX] 1
  | 0x6d => portString (if short then .insw else .insd) [.string, DX] (portElement c)
  | 0x6e => portString .outsb [DX, .string] 1
  | 0x6f => portString (if short then .outsw else .outsd) [DX, .string] (portElement c)
  | _ => .invalid

/-- A conditional branch. -/
def jccEntry (condition : Nat) (form : Form) : Entry :=
  .plain
    { mnemonic := .jcc (.ofCode condition)
      forms := [form]
      size := .branch
      flow := .conditionalBranch }

/-- The first immediate group: arithmetic by the `reg` field. -/
def immediateGroup (destination constant : Form) : Entry :=
  .modRm fun r => some
    { mnemonic := arithmetic r.reg
      forms := [destination, constant]
      lockable := arithmeticStores r.reg }

/-- Opcodes 80 to 8F. -/
def row8 (c : Context) (op : Nat) : Entry :=
  match op with
  | 0x80 => immediateGroup Eb Ib
  | 0x81 => immediateGroup Ev Iz
  | 0x82 => not64 c (immediateGroup Eb Ib)
  | 0x83 => immediateGroup Ev Ibs
  | 0x84 => any .test [Eb, Gb]
  | 0x85 => any .test [Ev, Gv]
  | 0x86 => lockable .xchg [Eb, Gb]
  | 0x87 => lockable .xchg [Ev, Gv]
  | 0x88 => any .mov [Eb, Gb]
  | 0x89 => any .mov [Ev, Gv]
  | 0x8a => any .mov [Gb, Eb]
  | 0x8b => any .mov [Gv, Ev]
  | 0x8c => .modRm fun r => if r.reg < 6 then basic .mov [Rv_Mw, .segment] else none
  | 0x8d => memoryOnly .lea [Gv, .memory 0]
  | 0x8e => .modRm fun r =>
      if r.reg < 6 ∧ r.reg ≠ 1 then basic .mov [.segment, Rv_Mw] else none
  | 0x8f => .modRm fun r => if r.reg = 0 then some (stackSpec .pop [Ev] 1) else none
  | _ => .invalid

/-- Opcodes 90 to 9F. The first of them exchanges the accumulator with itself, which is no
operation. -/
def row9 (c : Context) (op : Nat) : Entry :=
  match op with
  | 0x90 =>
    if c.selector = .pF3 then ownRepeat (plain (.nop .pause))
    else if c.rex.b then plain .xchg [.opcodeReg .operand, rAX]
    else plain (.nop .nop)
  | 0x98 => plain (.widenAccumulator c.standardSize)
  | 0x99 => plain (.widenPair c.standardSize)
  | 0x9a => not64 c (.plain
      { mnemonic := .call, forms := [.farPointer], flow := .call, stack := .slots (-2) })
  | 0x9b => plainOther "Wait"
  | 0x9c => .plain (stackSpec (.pushf (c.operandSize .stack)) [] (-1))
  | 0x9d => .plain (stackSpec (.popf (c.operandSize .stack)) [] 1)
  | 0x9e => plain .sahf
  | 0x9f => plain .lahf
  | _ => plain .xchg [.opcodeReg .operand, rAX]

/-- A string instruction at a width. -/
def stringEntry (op : StringOp) (width : Width) (forms : List Form) : Entry :=
  .plain { mnemonic := .string op width, forms, element := width.bytes }

/-- Opcodes A0 to AF. -/
def rowA (c : Context) (op : Nat) : Entry :=
  let v := c.standardSize
  match op with
  | 0xa0 => plain .mov [AL, .offset (.fixed .byte)]
  | 0xa1 => plain .mov [rAX, .offset .operand]
  | 0xa2 => plain .mov [.offset (.fixed .byte), AL]
  | 0xa3 => plain .mov [.offset .operand, rAX]
  | 0xa4 => stringEntry .movs .byte [.string, .string]
  | 0xa5 => stringEntry .movs v [.string, .string]
  | 0xa6 => stringEntry .cmps .byte [.string, .string]
  | 0xa7 => stringEntry .cmps v [.string, .string]
  | 0xa8 => plain .test [AL, Ib]
  | 0xa9 => plain .test [rAX, Iz]
  | 0xaa => stringEntry .stos .byte [.string, AL]
  | 0xab => stringEntry .stos v [.string, rAX]
  | 0xac => stringEntry .lods .byte [AL, .string]
  | 0xad => stringEntry .lods v [rAX, .string]
  | 0xae => stringEntry .scas .byte [AL, .string]
  | 0xaf => stringEntry .scas v [rAX, .string]
  | _ => .invalid

/-- The shift or rotate of a three-bit code. -/
def shiftOp : Nat → Mnemonic
  | 0 => .shift .rol
  | 1 => .shift .ror
  | 2 => .other "Rcl"
  | 3 => .other "Rcr"
  | 4 => .shift .shl
  | 5 => .shift .shr
  | 6 => .shift .sal
  | _ => .shift .sar

/-- The shift group by the `reg` field. -/
def shiftGroup (destination count : Form) : Entry :=
  .modRm fun r => basic (shiftOp r.reg) [destination, count]

/-- A load of a far pointer. -/
def loadFar (c : Context) (name : String) : Entry :=
  memoryOnly (.other name) [Gv, .memory (c.standardSize.bytes + 2)]

/-- A near return. -/
def nearReturn (forms : List Form) (stack : StackEffect) : Entry :=
  .plain { mnemonic := .ret, forms, size := .branch, flow := .return, stack }

/-- A far return. -/
def farReturn (forms : List Form) (stack : StackEffect) : Entry :=
  .plain { mnemonic := .other "Retf", forms, flow := .return, stack }

/-- The name of a return from interrupt at an operand size. -/
def interruptReturnName : Width → String
  | .qword => "Iretq"
  | .dword => "Iretd"
  | _ => "Iret"

/-- Opcodes C0 to CF. -/
def rowC (c : Context) (op : Nat) : Entry :=
  match op with
  | 0xc0 => shiftGroup Eb Ib
  | 0xc1 => shiftGroup Ev Ib
  | 0xc2 => nearReturn [Iw] (.slotsAndConstant 1)
  | 0xc3 => nearReturn [] (.slots 1)
  | 0xc4 => not64 c (loadFar c "Les")
  | 0xc5 => not64 c (loadFar c "Lds")
  | 0xc6 => .modRm fun r =>
      if r.reg = 0 then basic .mov [Eb, Ib]
      else if r = ⟨3, 7, 0⟩ then
        other "Xabort" [Ib]
      else none
  | 0xc7 => .modRm fun r =>
      if r.reg = 0 then basic .mov [Ev, Iz]
      else if r = ⟨3, 7, 0⟩ then
        some
          { mnemonic := .other "Xbegin"
            forms := [.abortHandler]
            size := .branch
            flow := .transaction }
      else none
  | 0xc8 => .plain
      { mnemonic := .other "Enter", forms := [Iw, Ib], size := .stack, stack := .frame }
  | 0xc9 => .plain { mnemonic := .leave, size := .stack }
  | 0xca => farReturn [Iw] (.slotsAndConstant 2)
  | 0xcb => farReturn [] (.slots 2)
  | 0xcc => .plain { mnemonic := .int3, flow := .interrupt }
  | 0xcd => .plain { mnemonic := .other "Int", forms := [Ib], flow := .interrupt }
  | 0xce => not64 c (.plain { mnemonic := .other "Into", flow := .interrupt })
  | 0xcf => .plain
      { mnemonic := .other (interruptReturnName c.standardSize)
        flow := .return
        stack := .interruptReturn }
  | _ => .invalid

/-- Opcodes D0 to D7. -/
def rowD (c : Context) (op : Nat) : Entry :=
  match op with
  | 0xd0 => shiftGroup Eb .one
  | 0xd1 => shiftGroup Ev .one
  | 0xd2 => shiftGroup Eb CL
  | 0xd3 => shiftGroup Ev CL
  | 0xd4 => not64 c (plainOther "Aam" [Ib])
  | 0xd5 => not64 c (plainOther "Aad" [Ib])
  | 0xd6 => not64 c (plainOther "Salc")
  | 0xd7 => plainOther "Xlatb" [.table]
  | _ => .invalid

/-- A loop or a branch on a zero counter. -/
def countedBranch (m : Mnemonic) : Entry :=
  .plain { mnemonic := m, forms := [.branch8], size := .branch, flow := .conditionalBranch }

/-- The branch on a zero counter, whose width is that of addresses. -/
def counterZero (c : Context) : Mnemonic :=
  match c.addressSize with
  | .qword => .jumpIfCounterZero true
  | .dword => .jumpIfCounterZero false
  | _ => .other "Jcxz"

/-- An unconditional relative branch. -/
def jumpEntry (form : Form) : Entry :=
  .plain { mnemonic := .jmp, forms := [form], size := .branch, flow := .unconditionalBranch }

/-- Opcodes E0 to EF. -/
def rowE (c : Context) (op : Nat) : Entry :=
  match op with
  | 0xe0 => countedBranch (.loop .whileNotEqual)
  | 0xe1 => countedBranch (.loop .whileEqual)
  | 0xe2 => countedBranch (.loop .always)
  | 0xe3 => countedBranch (counterZero c)
  | 0xe4 => plain (.privileged .input) [AL, Ib]
  | 0xe5 => plain (.privileged .input) [eAX, Ib]
  | 0xe6 => plain (.privileged .output) [Ib, AL]
  | 0xe7 => plain (.privileged .output) [Ib, eAX]
  | 0xe8 => .plain
      { mnemonic := .call
        forms := [.branch]
        size := .branch
        flow := .call
        stack := .slots (-1) }
  | 0xe9 => jumpEntry .branch
  | 0xea => not64 c (.plain
      { mnemonic := .jmp, forms := [.farPointer], flow := .unconditionalBranch })
  | 0xeb => jumpEntry .branch8
  | 0xec => plain (.privileged .input) [AL, DX]
  | 0xed => plain (.privileged .input) [eAX, DX]
  | 0xee => plain (.privileged .output) [DX, AL]
  | 0xef => plain (.privileged .output) [DX, eAX]
  | _ => .invalid

/-- The third group: a test with a constant, and one-operand arithmetic. -/
def unaryGroup (operand constant : Form) : Entry :=
  .modRm fun r =>
    match r.reg with
    | 2 => some { mnemonic := .unary .not, forms := [operand], lockable := true }
    | 3 => some { mnemonic := .unary .neg, forms := [operand], lockable := true }
    | 4 => basic .mul [operand]
    | 5 => basic .imul [operand]
    | 6 => basic .div [operand]
    | 7 => basic .idiv [operand]
    | _ => basic .test [operand, constant]

/-- Increments and decrements by the `reg` field. -/
def stepSpec (operand : Form) (r : ModRm) : Option Spec :=
  match r.reg with
  | 0 => some { mnemonic := .unary .inc, forms := [operand], lockable := true }
  | 1 => some { mnemonic := .unary .dec, forms := [operand], lockable := true }
  | _ => none

/-- The fifth group: steps, indirect calls and branches, and pushes. -/
def indirectGroup (c : Context) (r : ModRm) : Option Spec :=
  let far : Form := .memory (c.standardSize.bytes + 2)
  match r.reg with
  | 2 => some
      { mnemonic := .call
        forms := [Ev]
        size := .branch
        flow := .indirectCall
        stack := .slots (-1) }
  | 3 =>
    if r.isMemory then
      some { mnemonic := .call, forms := [far], flow := .indirectCall, stack := .slots (-2) }
    else none
  | 4 => some { mnemonic := .jmp, forms := [Ev], size := .branch, flow := .indirectBranch }
  | 5 =>
    if r.isMemory then some { mnemonic := .jmp, forms := [far], flow := .indirectBranch }
    else none
  | 6 => some (stackSpec .push [Ev] (-1))
  | _ => stepSpec Ev r

/-- Opcodes F1 to FF without prefixes. -/
def rowF (c : Context) (op : Nat) : Entry :=
  match op with
  | 0xf1 => .plain { mnemonic := .other "Int1", flow := .interrupt }
  | 0xf4 => plain (.privileged .hlt)
  | 0xf5 => plain (.flag .cmc)
  | 0xf6 => unaryGroup Eb Ib
  | 0xf7 => unaryGroup Ev Iz
  | 0xf8 => plain (.flag .clc)
  | 0xf9 => plain (.flag .stc)
  | 0xfa => plain (.privileged .cli)
  | 0xfb => plain (.privileged .sti)
  | 0xfc => plain (.flag .cld)
  | 0xfd => plain (.flag .std)
  | 0xfe => .modRm (stepSpec Eb)
  | 0xff => .modRm (indirectGroup c)
  | _ => .invalid

/-- The one-byte map, without escapes, prefixes and the floating-point stack. -/
def oneByte (c : Context) (op : Nat) : Entry :=
  if op < 0x40 then rows0To3 c op
  else if op < 0x60 then rows4To5 c op
  else if op < 0x70 then row6 c op
  else if op < 0x80 then jccEntry op .branch8
  else if op < 0x90 then row8 c op
  else if op < 0xa0 then row9 c op
  else if op < 0xb0 then rowA c op
  else if op < 0xb8 then plain .mov [.opcodeReg (.fixed .byte), Ib]
  else if op < 0xc0 then plain .mov [.opcodeReg .operand, .immFull]
  else if op < 0xd0 then rowC c op
  else if op < 0xe0 then rowD c op
  else if op < 0xf0 then rowE c op
  else rowF c op

end LongMode.Decode.Opcode
