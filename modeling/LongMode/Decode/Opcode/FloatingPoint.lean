import LongMode.Decode.Opcode.Shorthand

/-!
The escape opcodes D8 to DF of the floating-point stack. Memory forms are chosen by the `reg` field,
register forms by the whole ModRM byte. The machine executes none of them.
-/

set_option autoImplicit false
set_option relaxedAutoImplicit false

namespace LongMode.Decode.Opcode

/-- The top of the floating-point stack. -/
abbrev ST0 : Form := .fixed (.stackOfNumber 0)

/-- The eight arithmetic operations in the order of the `reg` field. -/
def stackArithmetic : List String :=
  ["add", "mul", "com", "comp", "sub", "subr", "div", "divr"]

/-- Arithmetic between the top of the stack and memory. -/
def stackFromMemory (stem : String) (bytes : Nat) (r : ModRm) : Option Spec :=
  match stackArithmetic[r.reg]? with
  | some op => other (stem ++ op) [.memory bytes]
  | none => none

/-- A named memory form: one row of a table by the `reg` field, empty where there is none. -/
def stackMemory (rows : List (String × Nat)) (r : ModRm) : Option Spec :=
  match rows[r.reg]? with
  | some (name, bytes) => if name.isEmpty then none else other name [.memory bytes]
  | none => none

/-- A named register form without operands: one row of a table by the `rm` field. -/
def stackBare (names : List String) (r : ModRm) : Option Spec :=
  match names[r.rm]? with
  | some name => if name.isEmpty then none else other name
  | none => none

/-- The memory forms of an escape opcode. -/
def stackMemoryForm (c : Context) (op : Nat) (r : ModRm) : Option Spec :=
  let short := c.standardSize == .word
  let environment := if short then 14 else 28
  let state := if short then 94 else 108
  match op with
  | 0xd8 => stackFromMemory "F" 4 r
  | 0xd9 => stackMemory
      [("Fld", 4), ("", 0), ("Fst", 4), ("Fstp", 4), ("Fldenv", environment), ("Fldcw", 2),
        ("Fnstenv", environment), ("Fnstcw", 2)] r
  | 0xda => stackFromMemory "Fi" 4 r
  | 0xdb => stackMemory
      [("Fild", 4), ("Fisttp", 4), ("Fist", 4), ("Fistp", 4), ("", 0), ("Fld", 10), ("", 0),
        ("Fstp", 10)] r
  | 0xdc => stackFromMemory "F" 8 r
  | 0xdd => stackMemory
      [("Fld", 8), ("Fisttp", 8), ("Fst", 8), ("Fstp", 8), ("Frstor", state), ("", 0),
        ("Fnsave", state), ("Fnstsw", 2)] r
  | 0xde => stackFromMemory "Fi" 2 r
  | _ => stackMemory
      [("Fild", 2), ("Fisttp", 2), ("Fist", 2), ("Fistp", 2), ("Fbld", 10), ("Fild", 8),
        ("Fbstp", 10), ("Fistp", 8)] r

/-- A register form that reads a stack register into the top. -/
def intoTop (name : String) : Option Spec :=
  if name.isEmpty then none else other name [ST0, .stackRm]

/-- A register form that stores from the top into a stack register. -/
def fromTop (name : String) : Option Spec :=
  other name [.stackRm, ST0]

/-- A register form of one stack register. -/
def oneStack (name : String) : Option Spec :=
  other name [.stackRm]

/-- The register forms of D9 from E0 on: constants, tests and transcendental functions. -/
def stackFunctions (r : ModRm) : Option Spec :=
  match r.reg with
  | 4 => stackBare ["Fchs", "Fabs", "", "", "Ftst", "Fxam", "", ""] r
  | 5 => stackBare ["Fld1", "Fldl2t", "Fldl2e", "Fldpi", "Fldlg2", "Fldln2", "Fldz", ""] r
  | 6 => stackBare
      ["F2xm1", "Fyl2x", "Fptan", "Fpatan", "Fxtract", "Fprem1", "Fdecstp", "Fincstp"] r
  | _ => stackBare ["Fprem", "Fyl2xp1", "Fsqrt", "Fsincos", "Frndint", "Fscale", "Fsin", "Fcos"] r

/-- The register forms of an escape opcode. -/
def stackRegisterForm (op : Nat) (r : ModRm) : Option Spec :=
  match op, r.reg with
  | 0xd8, n => (stackArithmetic[n]?).bind fun name => intoTop ("F" ++ name)
  | 0xd9, 0 => oneStack "Fld"
  | 0xd9, 1 => intoTop "Fxch"
  | 0xd9, 2 => stackBare ["Fnop"] r
  | 0xd9, 3 => oneStack "Fstpnce"
  | 0xd9, _ => stackFunctions r
  | 0xda, 5 => stackBare ["", "Fucompp"] r
  | 0xda, n => intoTop (["Fcmovb", "Fcmove", "Fcmovbe", "Fcmovu"][n]?.getD "")
  | 0xdb, 4 => stackBare ["Fneni", "Fndisi", "Fnclex", "Fninit", "Fnsetpm"] r
  | 0xdb, n => intoTop
      (["Fcmovnb", "Fcmovne", "Fcmovnbe", "Fcmovnu", "", "Fucomi", "Fcomi"][n]?.getD "")
  | 0xdc, 0 => fromTop "Fadd"
  | 0xdc, 1 => fromTop "Fmul"
  | 0xdc, 2 => intoTop "Fcom"
  | 0xdc, 3 => intoTop "Fcomp"
  | 0xdc, 4 => fromTop "Fsubr"
  | 0xdc, 5 => fromTop "Fsub"
  | 0xdc, 6 => fromTop "Fdivr"
  | 0xdc, _ => fromTop "Fdiv"
  | 0xdd, 0 => oneStack "Ffree"
  | 0xdd, 1 => intoTop "Fxch"
  | 0xdd, 2 => oneStack "Fst"
  | 0xdd, 3 => oneStack "Fstp"
  | 0xdd, 4 => intoTop "Fucom"
  | 0xdd, 5 => intoTop "Fucomp"
  | 0xdd, _ => none
  | 0xde, 0 => fromTop "Faddp"
  | 0xde, 1 => fromTop "Fmulp"
  | 0xde, 2 => intoTop "Fcomp"
  | 0xde, 3 => stackBare ["", "Fcompp"] r
  | 0xde, 4 => fromTop "Fsubrp"
  | 0xde, 5 => fromTop "Fsubp"
  | 0xde, 6 => fromTop "Fdivrp"
  | 0xde, _ => fromTop "Fdivp"
  | _, 0 => oneStack "Ffreep"
  | _, 1 => intoTop "Fxch"
  | _, 2 => oneStack "Fstp"
  | _, 3 => oneStack "Fstp"
  | _, 4 => if r.rm = 0 then other "Fnstsw" [.fixed (.general .word Register.rax)] else none
  | _, 5 => intoTop "Fucomip"
  | _, 6 => intoTop "Fcomip"
  | _, _ => none

/-- The entry of an escape opcode of the floating-point stack. -/
def floatingPoint (c : Context) (op : Nat) : Entry :=
  .modRm fun r => if r.isMemory then stackMemoryForm c op r else stackRegisterForm op r

end LongMode.Decode.Opcode
