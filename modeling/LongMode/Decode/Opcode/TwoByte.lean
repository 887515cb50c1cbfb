import LongMode.Decode.Opcode.OneByte

/-!
The two-byte opcode map: opcodes behind the escape byte 0F. Many rows choose among up to four
instructions by the mandatory prefix.
-/

set_option autoImplicit false
set_option relaxedAutoImplicit false

namespace LongMode.Decode.Opcode

/-- One vector operation on 64-bit registers and, under the operand-size prefix, on 128-bit ones. -/
def bothVectors (c : Context) (m : Mnemonic) (bytes : Nat := 8) : Entry :=
  by66 c (any m [P, .mmxRm bytes]) (any m [V, W])

/-- A vector operation that the machine does not execute, on both register banks. -/
def bothVectorsOther (c : Context) (name : String) : Entry :=
  bothVectors c (.other name)

/-- A packed operation on both register banks. -/
def packedEntry (c : Context) (op : PackedOp) (bytes : Nat := 8) : Entry :=
  bothVectors c (.packed op) bytes

/-- Floating-point arithmetic in its four formats. -/
def floatEntry (c : Context) (op : FloatOp) : Entry :=
  byPrefix c
    (any (.floatArithmetic op true .single) [V, W])
    (any (.floatArithmetic op true .double) [V, W])
    (any (.floatArithmetic op false .single) [V, Wn 4])
    (any (.floatArithmetic op false .double) [V, Wn 8])

/-- A packed operation without prefix and another under the operand-size prefix. -/
def packedPair (c : Context) (plainOp sizedOp : PackedOp) : Entry :=
  by66 c (any (.packed plainOp) [V, W]) (any (.packed sizedOp) [V, W])

/-- An instruction that does not touch its operands, on the `rm` and `reg` fields. -/
def reservedNop : Option Spec :=
  other "Reservednop" [Ev, Gv]

/-- The system group of the first row. -/
def descriptorGroup (c : Context) : Entry :=
  .modRm fun r =>
    match r.reg with
    | 0 => other "Sldt" [Rv_Mw]
    | 1 => other "Str" [Rv_Mw]
    | 2 => basic (.privileged .lldt) [Rv_Mw]
    | 3 => basic (.privileged .ltr) [Rv_Mw]
    | 4 => other "Verr" [Rv_Mw]
    | 5 => other "Verw" [Rv_Mw]
    | 6 =>
      if c.is64 && c.selector == .pF2 then
        some { mnemonic := .other "Lkgs", forms := [Rv_Mw], ownsRepeat := true }
      else none
    | _ => none

/-- An instruction without operands that the machine does not execute. -/
def bare (name : String) (flow : Flow := .next) : Option Spec :=
  some { mnemonic := .other name, flow }

/-- A bare instruction whose repeat prefix belongs to the opcode. -/
def bareRepeated (name : String) (flow : Flow := .next) : Option Spec :=
  some { mnemonic := .other name, flow, ownsRepeat := true }

/-- A return from an event handler, which takes a fixed number of eight-byte slots off the stack. -/
def eventReturn (name : String) (slots : Int) : Option Spec :=
  some
    { mnemonic := .other name
      size := .branch
      flow := .return
      stack := .slots slots
      ownsRepeat := true }

/-- The register forms of the system table group, by the whole ModRM byte. -/
def systemBare (c : Context) (r : ModRm) : Option Spec :=
  match r.reg * 8 + r.rm with
  | 0x00 => if c.selector = .none then bare "Enclv" else none
  | 0x01 => if c.selector = .none then bare "Vmcall" .call else none
  | 0x02 => if c.selector = .none then bare "Vmlaunch" .call else none
  | 0x03 => if c.selector = .none then bare "Vmresume" .call else none
  | 0x04 => if c.selector = .none then bare "Vmxoff" else none
  | 0x05 => if c.selector = .none then bare "Pconfig" else none
  | 0x06 =>
    match c.selector with
    | .none => bare "Wrmsrns"
    | .pF3 => if c.is64 then bareRepeated "Wrmsrlist" else none
    | .pF2 => if c.is64 then bareRepeated "Rdmsrlist" else none
    | .p66 => none
  | 0x07 => if c.selector = .none ∧ c.is64 then bare "Pbndkb" else none
  | 0x08 => if c.selector = .none then bare "Monitor" else none
  | 0x09 => if c.selector = .none then bare "Mwait" else none
  | 0x0a =>
    match c.selector with
    | .none => bare "Clac"
    | .pF3 => if c.is64 then eventReturn "Eretu" 6 else none
    | .pF2 => if c.is64 then eventReturn "Erets" 6 else none
    | .p66 => none
  | 0x0b => if c.selector = .none then bare "Stac" else none
  | 0x0c => if c.selector = .p66 then bare "Tdcall" .call else none
  | 0x0d => if c.selector = .p66 ∧ c.is64 then bare "Seamret" .call else none
  | 0x0e => if c.selector = .p66 ∧ c.is64 then bare "Seamops" else none
  | 0x0f =>
    match c.selector with
    | .none => bare "Encls"
    | .p66 => if c.is64 then bare "Seamcall" .call else none
    | _ => none
  | 0x10 => if c.selector = .none then bare "Xgetbv" else none
  | 0x11 => if c.selector = .none then bare "Xsetbv" else none
  | 0x14 => if c.selector = .none then bare "Vmfunc" else none
  | 0x15 => if c.selector = .none then bare "Xend" else none
  | 0x16 => if c.selector = .none then bare "Xtest" else none
  | 0x17 => if c.selector = .none then bare "Enclu" else none
  | 0x18 => bare "Vmrun" .call
  | 0x19 =>
    match c.selector with
    | .pF3 | .pF2 => bareRepeated "Vmgexit" .call
    | _ => bare "Vmmcall" .call
  | 0x1a => bare "Vmload"
  | 0x1b => bare "Vmsave"
  | 0x1c => bare "Stgi"
  | 0x1d => bare "Clgi"
  | 0x1e => bare "Skinit" .return
  | 0x1f => bare "Invlpga"
  | 0x28 =>
    match c.selector with
    | .none => bare "Serialize"
    | .pF3 => bareRepeated "Setssbsy"
    | .pF2 => bareRepeated "Xsusldtrk"
    | .p66 => none
  | 0x29 => if c.selector = .pF2 then bareRepeated "Xresldtrk" else none
  | 0x2a => if c.selector = .pF3 then bareRepeated "Saveprevssp" else none
  | 0x2c => if c.selector = .pF3 ∧ c.is64 then eventReturn "Uiret" 3 else none
  | 0x2d => if c.selector = .pF3 ∧ c.is64 then bareRepeated "Testui" else none
  | 0x2e =>
    match c.selector with
    | .none => bare "Rdpkru"
    | .pF3 => if c.is64 then bareRepeated "Clui" else none
    | _ => none
  | 0x2f =>
    match c.selector with
    | .none => bare "Wrpkru"
    | .pF3 => if c.is64 then bareRepeated "Stui" else none
    | _ => none
  | 0x38 => if c.is64 then bare "Swapgs" else none
  | 0x39 => bare "Rdtscp"
  | 0x3a =>
    match c.selector with
    | .none => bare "Monitorx"
    | .pF3 => bareRepeated "Mcommit"
    | _ => none
  | 0x3b => if c.selector = .none then bare "Mwaitx" else none
  | 0x3c => bare "Clzero"
  | 0x3d =>
    match c.selector with
    | .none => bare "Rdpru"
    | .pF3 => if c.is64 then bareRepeated "Rmpquery" else none
    | _ => none
  | 0x3e =>
    match c.selector with
    | .pF3 => if c.is64 then bareRepeated "Rmpadjust" else none
    | .pF2 => if c.is64 then bareRepeated "Rmpupdate" else none
    | .p66 => none
    | .none => bare "Invlpgb"
  | 0x3f =>
    match c.selector with
    | .pF3 => if c.is64 then bareRepeated "Psmash" else none
    | .pF2 => bareRepeated "Pvalidate"
    | .p66 => none
    | .none => bare "Tlbsync"
  | _ => none

/-- The system table group: memory forms, machine status word and bare instructions. -/
def systemGroup (c : Context) : Entry :=
  let descriptor := if c.is64 then 10 else 6
  .modRm fun r =>
    match r.reg, r.isMemory with
    | 0, true => other "Sgdt" [.memory descriptor]
    | 1, true => other "Sidt" [.memory descriptor]
    | 2, true => basic (.privileged .lgdt) [.memory descriptor]
    | 3, true => basic (.privileged .lidt) [.memory descriptor]
    | 4, _ => other "Smsw" [Rv_Mw]
    | 5, true =>
      if c.selector = .pF3 then
        some { mnemonic := .other "Rstorssp", forms := [.memory 8], ownsRepeat := true }
      else none
    | 6, _ => other "Lmsw" [Rv_Mw]
    | 7, true => basic (.privileged .invlpg) [.memory 0]
    | _, _ => systemBare c r

/-- Opcodes 00 to 0F behind the escape. -/
def escape0 (c : Context) (op : Nat) : Entry :=
  match op with
  | 0x00 => descriptorGroup c
  | 0x01 => systemGroup c
  | 0x02 => any (.other "Lar") [Gv, Rv_Mw]
  | 0x03 => any (.other "Lsl") [Gv, Rv_Mw]
  | 0x05 => .plain { mnemonic := .syscall, flow := .call }
  | 0x06 => plain (.privileged .clts)
  | 0x07 => .plain
      { mnemonic := .other (if c.rex.w && c.is64 then "Sysretq" else "Sysret"), flow := .return }
  | 0x08 => plain (.privileged .invd)
  | 0x09 =>
    if c.selector = .pF3 then ownRepeat (plainOther "Wbnoinvd") else plain (.privileged .wbinvd)
  | 0x0b => .plain { mnemonic := .undefined 2, flow := .exception }
  | 0x0d => .modRm fun r =>
      if r.isRegister then reservedNop
      else
        match r.reg with
        | 1 | 3 => basic (.nop .prefetchw) [.memory 1]
        | 2 => other "Prefetchwt1" [.memory 1]
        | _ => other "Prefetch" [.memory 1]
  | 0x0e => plainOther "Femms"
  | _ => .invalid

/-- Opcodes 10 to 17: moves of parts of vector registers. -/
def escape1Low (c : Context) (op : Nat) : Entry :=
  match op with
  | 0x10 => byPrefix c
      (any (.vectorMove .movups) [V, W]) (any (.vectorMove .movupd) [V, W])
      (any (.scalarMove .single) [V, Wn 4]) (any (.scalarMove .double) [V, Wn 8])
  | 0x11 => byPrefix c
      (any (.vectorMove .movups) [W, V]) (any (.vectorMove .movupd) [W, V])
      (any (.scalarMove .single) [Wn 4, V]) (any (.scalarMove .double) [Wn 8, V])
  | 0x12 => byPrefix c
      (memoryOr (basic (.halfMove .movlps) [V, .memory 8]) (basic .movhlps [V, W]))
      (memoryOnly (.halfMove .movlpd) [V, .memory 8])
      (any (.other "Movsldup") [V, W]) (any (.other "Movddup") [V, Wn 8])
  | 0x13 => by66 c (memoryOnly (.halfMove .movlps) [.memory 8, V])
      (memoryOnly (.halfMove .movlpd) [.memory 8, V])
  | 0x14 => packedPair c .unpcklps .unpcklpd
  | 0x15 => packedPair c .unpckhps .unpckhpd
  | 0x16 => byPrefix c
      (memoryOr (basic (.halfMove .movhps) [V, .memory 8]) (basic .movlhps [V, W]))
      (memoryOnly (.halfMove .movhpd) [V, .memory 8])
      (any (.other "Movshdup") [V, W]) .invalid
  | _ => by66 c (memoryOnly (.halfMove .movhps) [.memory 8, V])
      (memoryOnly (.halfMove .movhpd) [.memory 8, V])

/-- Prefetches by the `reg` field; every other form does nothing. -/
def prefetchSpec (r : ModRm) : Option Spec :=
  let form : List Form := [.memory 1]
  if r.isRegister then reservedNop
  else
    match r.reg with
    | 0 => basic (.nop .prefetchnta) form
    | 1 => basic (.nop .prefetcht0) form
    | 2 => basic (.nop .prefetcht1) form
    | 3 => basic (.nop .prefetcht2) form
    | 6 => other "Prefetchit1" form
    | 7 => other "Prefetchit0" form
    | _ => reservedNop

/-- The cache-line demotion, which has no mandatory prefix, among instructions that do nothing. -/
def demoteSpec (c : Context) (r : ModRm) : Option Spec :=
  if c.selector = .none ∧ r.isMemory ∧ r.reg = 0 then other "Cldemote" [.memory 1]
  else reservedNop

/-- The landing marks and shadow-stack reads among instructions that do nothing. Their ModRM bytes
own the repeat prefixes, also where only one of the two selects an instruction. -/
def landingSpec (c : Context) (r : ModRm) : Option Spec :=
  let owned (m : Mnemonic) (forms : List Form := []) : Option Spec :=
    if c.selector = .pF3 then some { mnemonic := m, forms, ownsRepeat := true }
    else reservedNop.map fun s => { s with ownsRepeat := true }
  if r.isMemory then reservedNop
  else
    match r.reg, r.rm with
    | 1, _ => owned (.other (if c.dwordOrQword = .qword then "Rdsspq" else "Rdsspd")) [Ey]
    | 7, 2 => owned (.nop .endbr64)
    | 7, 3 => owned (.nop .endbr32)
    | _, _ => reservedNop

/-- Opcodes 18 to 1F: prefetches and instructions that do nothing. -/
def escape1High (c : Context) (op : Nat) : Entry :=
  match op with
  | 0x18 => .modRm prefetchSpec
  | 0x1c => .modRm (demoteSpec c)
  | 0x1e => .modRm (landingSpec c)
  | 0x1f => .modRm fun r => if r.reg = 0 then basic (.nop .nop) [Ev] else reservedNop
  | _ => .modRm fun _ => reservedNop

/-- A move between a general register and a control or debug register. The `mod` field is
ignored. -/
def controlMove (forms : List Form) (known : Nat → Bool) (c : Context) : Entry :=
  .modRm fun r =>
    if known (extend c.rex.r r.reg) then some { mnemonic := .mov, forms, anyMod := true } else none

/-- The control registers that exist. -/
def isControl (n : Nat) : Bool :=
  n == 0 || n == 2 || n == 3 || n == 4 || n == 8

/-- Opcodes 20 to 2F. -/
def escape2 (c : Context) (op : Nat) : Entry :=
  let R : Form := .rm .native
  match op with
  | 0x20 => controlMove [R, .control] isControl c
  | 0x21 => controlMove [R, .debug] (· < 8) c
  | 0x22 => controlMove [.control, R] isControl c
  | 0x23 => controlMove [.debug, R] (· < 8) c
  | 0x28 => by66 c (any (.vectorMove .movaps) [V, W]) (any (.vectorMove .movapd) [V, W])
  | 0x29 => by66 c (any (.vectorMove .movaps) [W, V]) (any (.vectorMove .movapd) [W, V])
  | 0x2a => byPrefix c
      (any (.other "Cvtpi2ps") [V, Q]) (any (.other "Cvtpi2pd") [V, Q])
      (any (.intToFloat .single) [V, Ey]) (any (.intToFloat .double) [V, Ey])
  | 0x2b => byPrefix c
      (memoryOnly (.vectorMove .movntps) [.memory 16, V])
      (memoryOnly (.vectorMove .movntpd) [.memory 16, V])
      (memoryOnly (.other "Movntss") [.memory 4, V])
      (memoryOnly (.other "Movntsd") [.memory 8, V])
  | 0x2c => byPrefix c
      (any (.other "Cvttps2pi") [P, Wn 8]) (any (.other "Cvttpd2pi") [P, W])
      (any (.floatToInt true .single) [Gy, Wn 4]) (any (.floatToInt true .double) [Gy, Wn 8])
  | 0x2d => byPrefix c
      (any (.other "Cvtps2pi") [P, Wn 8]) (any (.other "Cvtpd2pi") [P, W])
      (any (.floatToInt false .single) [Gy, Wn 4]) (any (.floatToInt false .double) [Gy, Wn 8])
  | 0x2e => by66 c (any (.floatFlags false .single) [V, Wn 4])
      (any (.floatFlags false .double) [V, Wn 8])
  | 0x2f => by66 c (any (.floatFlags true .single) [V, Wn 4])
      (any (.floatFlags true .double) [V, Wn 8])
  | _ => .invalid

/-- Opcodes 30 to 37. -/
def escape3 (c : Context) (op : Nat) : Entry :=
  match op with
  | 0x30 => plain (.privileged .wrmsr)
  | 0x31 => plain .rdtsc
  | 0x32 => plain (.privileged .rdmsr)
  | 0x33 => plainOther "Rdpmc"
  | 0x34 => .plain { mnemonic := .other "Sysenter", flow := .call }
  | 0x35 => .plain
      { mnemonic := .other (if c.rex.w && c.is64 then "Sysexitq" else "Sysexit"), flow := .return }
  | 0x37 => unprefixed c (plainOther (if c.rex.w && c.is64 then "Getsecq" else "Getsec"))
  | _ => .invalid

/-- Opcodes 50 to 5F: floating-point logic, arithmetic and conversion. -/
def escape5 (c : Context) (op : Nat) : Entry :=
  match op with
  | 0x50 => by66 c (registerOnly (.signMask .movmskps) [Gy, W])
      (registerOnly (.signMask .movmskpd) [Gy, W])
  | 0x51 => floatEntry c .sqrt
  | 0x52 => byPrefix c (any (.other "Rsqrtps") [V, W]) .invalid (any (.other "Rsqrtss") [V, Wn 4])
      .invalid
  | 0x53 => byPrefix c (any (.other "Rcpps") [V, W]) .invalid (any (.other "Rcpss") [V, Wn 4])
      .invalid
  | 0x54 => packedPair c .andps .andpd
  | 0x55 => packedPair c .andnps .andnpd
  | 0x56 => packedPair c .orps .orpd
  | 0x57 => packedPair c .xorps .xorpd
  | 0x58 => floatEntry c .add
  | 0x59 => floatEntry c .mul
  | 0x5a => byPrefix c
      (any (.other "Cvtps2pd") [V, Wn 8]) (any (.other "Cvtpd2ps") [V, W])
      (any (.changePrecision .single) [V, Wn 4]) (any (.changePrecision .double) [V, Wn 8])
  | 0x5b => byPrefix c
      (any (.other "Cvtdq2ps") [V, W]) (any (.other "Cvtps2dq") [V, W])
      (any (.other "Cvttps2dq") [V, W]) .invalid
  | 0x5c => floatEntry c .sub
  | 0x5d => floatEntry c .min
  | 0x5e => floatEntry c .div
  | _ => floatEntry c .max

/-- The move of a doubleword or quadword between vector and general registers. -/
def wideMove (c : Context) : Mnemonic :=
  if c.dwordOrQword = .qword then .movq else .movd

/-- Opcodes 60 to 6F. -/
def escape6 (c : Context) (op : Nat) : Entry :=
  match op with
  | 0x60 => packedEntry c .punpcklbw 4
  | 0x61 => packedEntry c .punpcklwd 4
  | 0x62 => packedEntry c .punpckldq 4
  | 0x63 => bothVectorsOther c "Packsswb"
  | 0x64 => packedEntry c .pcmpgtb
  | 0x65 => packedEntry c .pcmpgtw
  | 0x66 => packedEntry c .pcmpgtd
  | 0x67 => bothVectorsOther c "Packuswb"
  | 0x68 => packedEntry c .punpckhbw
  | 0x69 => packedEntry c .punpckhwd
  | 0x6a => packedEntry c .punpckhdq
  | 0x6b => bothVectorsOther c "Packssdw"
  | 0x6c => only66 c (any (.packed .punpcklqdq) [V, W])
  | 0x6d => only66 c (any (.packed .punpckhqdq) [V, W])
  | 0x6e => by66 c (any (wideMove c) [P, Ey]) (any (wideMove c) [V, Ey])
  | _ => byPrefix c (any .movq [P, Q]) (any (.vectorMove .movdqa) [V, W])
      (any (.vectorMove .movdqu) [V, W]) .invalid

/-- A lane shift by a constant, on registers of both banks. -/
def constantShift (c : Context) (op : LaneShift) (width : Width) : Option Spec :=
  match c.selector with
  | .none => basic (.packedShift op width) [Q, Ib]
  | .p66 => basic (.packedShift op width) [W, Ib]
  | _ => none

/-- A byte shift by a constant. -/
def constantByteShift (c : Context) (left : Bool) : Option Spec :=
  if c.selector = .p66 then basic (.byteShift left) [W, Ib] else none

/-- Shifts by a constant, by the `reg` field. -/
def constantShiftGroup (c : Context) (width : Width) : Entry :=
  .modRm fun r =>
    if r.isMemory then none
    else
      match r.reg with
      | 2 => constantShift c .right width
      | 3 => if width = .qword then constantByteShift c false else none
      | 4 => if width = .qword then none else constantShift c .arithmetic width
      | 6 => constantShift c .left width
      | 7 => if width = .qword then constantByteShift c true else none
      | _ => none

/-- Opcodes 70 to 7F. -/
def escape7 (c : Context) (op : Nat) : Entry :=
  match op with
  | 0x70 => byPrefix c (any (.other "Pshufw") [P, Q, Ib]) (any (.shuffle .pshufd) [V, W, Ib])
      (any (.shuffle .pshufhw) [V, W, Ib]) (any (.shuffle .pshuflw) [V, W, Ib])
  | 0x71 => constantShiftGroup c .word
  | 0x72 => constantShiftGroup c .dword
  | 0x73 => constantShiftGroup c .qword
  | 0x74 => packedEntry c .pcmpeqb
  | 0x75 => packedEntry c .pcmpeqw
  | 0x76 => packedEntry c .pcmpeqd
  | 0x77 => unprefixed c (plainOther "Emms")
  | 0x78 => byPrefix c (any (.other "Vmread") [.rm .native, .reg .native])
      (.modRm fun r => if r.isRegister ∧ r.reg = 0 then other "Extrq" [W, Ib, Ib] else none)
      .invalid (registerOnly (.other "Insertq") [V, W, Ib, Ib])
  | 0x79 => byPrefix c (any (.other "Vmwrite") [.reg .native, .rm .native])
      (registerOnly (.other "Extrq") [V, W]) .invalid (registerOnly (.other "Insertq") [V, W])
  | 0x7c => byPrefix c .invalid (any (.other "Haddpd") [V, W]) .invalid
      (any (.other "Haddps") [V, W])
  | 0x7d => byPrefix c .invalid (any (.other "Hsubpd") [V, W]) .invalid
      (any (.other "Hsubps") [V, W])
  | 0x7e => byPrefix c (any (wideMove c) [Ey, P]) (any (wideMove c) [Ey, V])
      (any .movq [V, Wn 8]) .invalid
  | 0x7f => byPrefix c (any .movq [Q, P]) (any (.vectorMove .movdqa) [W, V])
      (any (.vectorMove .movdqu) [W, V]) .invalid
  | _ => .invalid

/-- The write to the trace, which bears no operand-size prefix. -/
def traceWrite (c : Context) : Option Spec :=
  if c.prefixes.operandSize then none
  else some { mnemonic := .other "Ptwrite", forms := [Ey], ownsRepeat := true }

/-- The memory forms of the state group. -/
def stateMemory (c : Context) (r : ModRm) : Option Spec :=
  let wide (name : String) : String := if c.rex.w && c.is64 then name ++ "64" else name
  match c.selector, r.reg with
  | .none, 0 => other (wide "Fxsave") [.memory 512]
  | .none, 1 => other (wide "Fxrstor") [.memory 512]
  | .none, 2 => basic .ldmxcsr [.memory 4]
  | .none, 3 => basic .stmxcsr [.memory 4]
  | .none, 4 => other (wide "Xsave") [.memory 0]
  | .none, 5 => other (wide "Xrstor") [.memory 0]
  | .none, 6 => other (wide "Xsaveopt") [.memory 0]
  | .none, _ => other "Clflush" [.memory 1]
  | .p66, 6 => other "Clwb" [.memory 1]
  | .p66, 7 => other "Clflushopt" [.memory 1]
  | .pF3, 4 => traceWrite c
  | .pF3, 6 => some { mnemonic := .other "Clrssbsy", forms := [.memory 8], ownsRepeat := true }
  | _, _ => none

/-- An instruction on a general register under a repeat prefix that belongs to the opcode. -/
def repeatedRegister (name : String) (form : Form) : Option Spec :=
  some { mnemonic := .other name, forms := [form], ownsRepeat := true }

/-- The register forms of the state group. -/
def stateRegister (c : Context) (r : ModRm) : Option Spec :=
  match c.selector, r.reg with
  | .none, 5 => basic (.nop .lfence) []
  | .none, 6 => basic (.nop .mfence) []
  | .none, 7 => basic (.nop .sfence) []
  | .p66, 6 => other "Tpause" [Ey]
  | .pF3, 0 => if c.is64 then repeatedRegister "Rdfsbase" Ey else none
  | .pF3, 1 => if c.is64 then repeatedRegister "Rdgsbase" Ey else none
  | .pF3, 2 => if c.is64 then repeatedRegister "Wrfsbase" Ey else none
  | .pF3, 3 => if c.is64 then repeatedRegister "Wrgsbase" Ey else none
  | .pF3, 4 => traceWrite c
  | .pF3, 5 => repeatedRegister (if c.dwordOrQword = .qword then "Incsspq" else "Incsspd") Ey
  | .pF3, 6 => repeatedRegister "Umonitor" (.rm .address)
  | .pF2, 6 => repeatedRegister "Umwait" Ey
  | _, _ => none

/-- The hashes of the security engine and its Montgomery multiplication, all under the repeat
prefix. -/
def engineHash (c : Context) (r : ModRm) : Option Spec :=
  let names :=
    ["Montmul", "Xsha1", "Xsha256", "Xsha512_alt", "Xsha512", "Ccs_hash", "Undoc", "Undoc"]
  if r.isRegister ∧ c.selector = .pF3 then (names[r.reg]?).bind bare else none

/-- The random numbers and block ciphers of the security engine; the ciphers need the repeat
prefix. -/
def engineCipher (c : Context) (r : ModRm) : Option Spec :=
  let names :=
    ["Xstore", "Xcryptecb", "Xcryptcbc", "Xcryptctr", "Xcryptcfb", "Xcryptofb", "Ccs_encrypt",
      "Xstore_alt"]
  if r.isRegister ∧ (c.selector = .pF3 ∨ r.reg = 0) then (names[r.reg]?).bind bare else none

/-- A double shift by a constant or by the count register. -/
def doubleShiftEntry (left : Bool) (count : Form) : Entry :=
  any (.doubleShift left) [Ev, Gv, count]

/-- Opcodes A0 to AF. -/
def escapeA (c : Context) (op : Nat) : Entry :=
  match op with
  | 0xa0 => pushSegment .fs
  | 0xa1 => popSegment .fs
  | 0xa2 => plain .cpuid
  | 0xa3 => any (.bit .test) [Ev, Gv]
  | 0xa4 => doubleShiftEntry true Ib
  | 0xa5 => doubleShiftEntry true CL
  | 0xa6 => .modRm (engineHash c)
  | 0xa7 => .modRm (engineCipher c)
  | 0xa8 => pushSegment .gs
  | 0xa9 => popSegment .gs
  | 0xaa => .plain { mnemonic := .other "Rsm", flow := .return }
  | 0xab => lockable (.bit .set) [Ev, Gv]
  | 0xac => doubleShiftEntry false Ib
  | 0xad => doubleShiftEntry false CL
  | 0xae => .modRm fun r => if r.isMemory then stateMemory c r else stateRegister c r
  | 0xaf => any .imul [Gv, Ev]
  | _ => .invalid

/-- The bit group with a constant offset. -/
def bitGroup : Entry :=
  .modRm fun r =>
    match r.reg with
    | 4 => basic (.bit .test) [Ev, Ib]
    | 5 => some { mnemonic := .bit .set, forms := [Ev, Ib], lockable := true }
    | 6 => some { mnemonic := .bit .reset, forms := [Ev, Ib], lockable := true }
    | 7 => some { mnemonic := .bit .complement, forms := [Ev, Ib], lockable := true }
    | _ => none

/-- Opcodes B0 to BF. -/
def escapeB (c : Context) (op : Nat) : Entry :=
  match op with
  | 0xb0 => lockable .cmpxchg [Eb, Gb]
  | 0xb1 => lockable .cmpxchg [Ev, Gv]
  | 0xb2 => loadFar c "Lss"
  | 0xb3 => lockable (.bit .reset) [Ev, Gv]
  | 0xb4 => loadFar c "Lfs"
  | 0xb5 => loadFar c "Lgs"
  | 0xb6 => any .movzx [Gv, Eb]
  | 0xb7 => any .movzx [Gv, Ew]
  | 0xb8 => if c.selector = .pF3 then ownRepeat (any .popcnt [Gv, Ev]) else .invalid
  | 0xb9 => .modRm fun _ => some
      { mnemonic := .undefined 1, forms := [Gv, Ev], flow := .exception }
  | 0xba => bitGroup
  | 0xbb => lockable (.bit .complement) [Ev, Gv]
  | 0xbc => if c.selector = .pF3 then ownRepeat (any .tzcnt [Gv, Ev]) else any .bsf [Gv, Ev]
  | 0xbd => if c.selector = .pF3 then ownRepeat (any .lzcnt [Gv, Ev]) else any .bsr [Gv, Ev]
  | 0xbe => any .movsx [Gv, Eb]
  | _ => any .movsx [Gv, Ew]

/-- The last group: wide exchanges, saved state, virtual-machine pointers and random numbers. -/
def exchangeGroup (c : Context) (r : ModRm) : Option Spec :=
  let wide := c.rex.w && c.is64
  let suffix := if wide then "64" else ""
  if r.isMemory then
    match r.reg with
    | 1 => some
        { mnemonic := if wide then .cmpxchg16b else .cmpxchg8b
          forms := [.memory (if wide then 16 else 8)]
          lockable := true }
    | 3 => if c.selector = .none then other ("Xrstors" ++ suffix) [.memory 0] else none
    | 4 => if c.selector = .none then other ("Xsavec" ++ suffix) [.memory 0] else none
    | 5 => if c.selector = .none then other ("Xsaves" ++ suffix) [.memory 0] else none
    | 6 =>
      match c.selector with
      | .none => other "Vmptrld" [.memory 8]
      | .p66 => other "Vmclear" [.memory 8]
      | .pF3 => some { mnemonic := .other "Vmxon", forms := [.memory 8], ownsRepeat := true }
      | .pF2 => none
    | 7 => if c.selector = .none then other "Vmptrst" [.memory 8] else none
    | _ => none
  else
    match r.reg, c.selector with
    | 6, .none | 6, .p66 => other "Rdrand" [Ev]
    | 6, .pF3 => if c.is64 then repeatedRegister "Senduipi" (.rm (.fixed .qword)) else none
    | 7, .none | 7, .p66 => other "Rdseed" [Ev]
    | 7, .pF3 => repeatedRegister "Rdpid" (.rm .native)
    | _, _ => none

/-- Opcodes C0 to CF. -/
def escapeC (c : Context) (op : Nat) : Entry :=
  match op with
  | 0xc0 => lockable .xadd [Eb, Gb]
  | 0xc1 => lockable .xadd [Ev, Gv]
  | 0xc2 => byPrefix c
      (any (.floatMask true .single) [V, W, Ib]) (any (.floatMask true .double) [V, W, Ib])
      (any (.floatMask false .single) [V, Wn 4, Ib]) (any (.floatMask false .double) [V, Wn 8, Ib])
  | 0xc3 => unprefixed c (memoryOnly .movnti [.memoryOf .dwordOrQword, Gy])
  | 0xc4 => by66 c (any .pinsrw [P, .rmOr .dwordOrQword 2, Ib])
      (any .pinsrw [V, .rmOr .dwordOrQword 2, Ib])
  | 0xc5 => by66 c (registerOnly .pextrw [Gy, Q, Ib]) (registerOnly .pextrw [Gy, W, Ib])
  | 0xc6 => by66 c (any (.shuffle .shufps) [V, W, Ib]) (any (.shuffle .shufpd) [V, W, Ib])
  | 0xc7 => .modRm (exchangeGroup c)
  | _ => plain .bswap [.opcodeReg .operand]

/-- Opcodes D0 to DF. -/
def escapeD (c : Context) (op : Nat) : Entry :=
  match op with
  | 0xd0 => byPrefix c .invalid (any (.other "Addsubpd") [V, W]) .invalid
      (any (.other "Addsubps") [V, W])
  | 0xd1 => bothVectors c (.packedShift .right .word)
  | 0xd2 => bothVectors c (.packedShift .right .dword)
  | 0xd3 => bothVectors c (.packedShift .right .qword)
  | 0xd4 => packedEntry c .paddq
  | 0xd5 => bothVectorsOther c "Pmullw"
  | 0xd6 => byPrefix c .invalid (any .movq [Wn 8, V])
      (registerOnly (.other "Movq2dq") [V, Q]) (registerOnly (.other "Movdq2q") [P, W])
  | 0xd7 => by66 c (registerOnly (.signMask .pmovmskb) [Gy, Q])
      (registerOnly (.signMask .pmovmskb) [Gy, W])
  | 0xd8 => bothVectorsOther c "Psubusb"
  | 0xd9 => bothVectorsOther c "Psubusw"
  | 0xda => packedEntry c .pminub
  | 0xdb => packedEntry c .pand
  | 0xdc => bothVectorsOther c "Paddusb"
  | 0xdd => bothVectorsOther c "Paddusw"
  | 0xde => packedEntry c .pmaxub
  | _ => packedEntry c .pandn

/-- Opcodes E0 to EF. -/
def escapeE (c : Context) (op : Nat) : Entry :=
  match op with
  | 0xe0 => bothVectorsOther c "Pavgb"
  | 0xe1 => bothVectors c (.packedShift .arithmetic .word)
  | 0xe2 => bothVectors c (.packedShift .arithmetic .dword)
  | 0xe3 => bothVectorsOther c "Pavgw"
  | 0xe4 => bothVectorsOther c "Pmulhuw"
  | 0xe5 => bothVectorsOther c "Pmulhw"
  | 0xe6 => byPrefix c .invalid (any (.other "Cvttpd2dq") [V, W])
      (any (.other "Cvtdq2pd") [V, Wn 8]) (any (.other "Cvtpd2dq") [V, W])
  | 0xe7 => by66 c (memoryOnly (.other "Movntq") [.memory 8, P])
      (memoryOnly (.vectorMove .movntdq) [.memory 16, V])
  | 0xe8 => bothVectorsOther c "Psubsb"
  | 0xe9 => bothVectorsOther c "Psubsw"
  | 0xea => packedEntry c .pminsw
  | 0xeb => packedEntry c .por
  | 0xec => bothVectorsOther c "Paddsb"
  | 0xed => bothVectorsOther c "Paddsw"
  | 0xee => packedEntry c .pmaxsw
  | _ => packedEntry c .pxor

/-- A masked store to the place the destination pointer names. -/
def maskedStore (name : String) (forms : List Form) (element : Nat) : Entry :=
  .modRm fun r =>
    if r.isRegister then some { mnemonic := .other name, forms := .string :: forms, element }
    else none

/-- Opcodes F0 to FF. -/
def escapeF (c : Context) (op : Nat) : Entry :=
  match op with
  | 0xf0 => byPrefix c .invalid .invalid .invalid (memoryOnly (.other "Lddqu") [V, .memory 16])
  | 0xf1 => bothVectors c (.packedShift .left .word)
  | 0xf2 => bothVectors c (.packedShift .left .dword)
  | 0xf3 => bothVectors c (.packedShift .left .qword)
  | 0xf4 => bothVectorsOther c "Pmuludq"
  | 0xf5 => bothVectorsOther c "Pmaddwd"
  | 0xf6 => bothVectorsOther c "Psadbw"
  | 0xf7 => by66 c (maskedStore "Maskmovq" [P, Q] 8) (maskedStore "Maskmovdqu" [V, W] 16)
  | 0xf8 => packedEntry c .psubb
  | 0xf9 => packedEntry c .psubw
  | 0xfa => packedEntry c .psubd
  | 0xfb => packedEntry c .psubq
  | 0xfc => packedEntry c .paddb
  | 0xfd => packedEntry c .paddw
  | 0xfe => packedEntry c .paddd
  | _ => .modRm fun _ => some
      { mnemonic := .undefined 0, forms := [Gv, Ev], flow := .exception }

/-- The two-byte map, without the escapes to further maps. -/
def twoByte (c : Context) (op : Nat) : Entry :=
  match op / 16 with
  | 0x0 => escape0 c op
  | 0x1 => if op < 0x18 then escape1Low c op else escape1High c op
  | 0x2 => escape2 c op
  | 0x3 => escape3 c op
  | 0x4 => any (.cmov (.ofCode op)) [Gv, Ev]
  | 0x5 => escape5 c op
  | 0x6 => escape6 c op
  | 0x7 => escape7 c op
  | 0x8 => jccEntry op .branch
  | 0x9 => any (.setcc (.ofCode op)) [Eb]
  | 0xa => escapeA c op
  | 0xb => escapeB c op
  | 0xc => escapeC c op
  | 0xd => escapeD c op
  | 0xe => escapeE c op
  | _ => escapeF c op

end LongMode.Decode.Opcode
