import LongMode.Decode.Opcode.Shape

/-!
The opcode maps behind EVEX: vector instructions of up to 512 bits with masks, broadcasts and
rounding modes. The machine executes none of them, so the tables give only the shapes under which
an opcode exists.
-/

set_option autoImplicit false
set_option relaxedAutoImplicit false

namespace LongMode.Decode.Evex

open Shape

/-- Stores of lanes to the addresses in a vector. -/
def scatters : Shape :=
  { unary.indexed with masking := .required }

/-- Loads of lanes from the addresses in a vector, which the result does not replace. -/
def gathers : Shape :=
  scatters.apart

/-- The fused multiplications and additions. Each of their three operand orders has four opcodes
for the lowest lane alone. -/
def fusedMultiplyAdds (s : Shape) : List ShapeRow :=
  [0x90, 0xa0, 0xb0].flatMap fun order =>
    (order + 0x6, order + 0x8, s.bcst.er) ::
      [0x9, 0xb, 0xd, 0xf].map (fun low => (order + low, order + low, s.er)) ++
      [0xa, 0xc, 0xe].map fun low => (order + low, order + low, s.bcst.er)

/-- The map of the escape 0F. -/
def rows0F : Selector → List ShapeRow
  | .none =>
    [(0x10, 0x10, unary.w0), (0x11, 0x11, unary.w0.stored), (0x12, 0x12, binary.w0.l128.unmasked),
      (0x13, 0x13, unary.w0.l128.memory.unmasked), (0x14, 0x15, binary.w0.bcst),
      (0x16, 0x16, binary.w0.l128.unmasked), (0x17, 0x17, unary.w0.l128.memory.unmasked),
      (0x28, 0x28, unary.w0), (0x29, 0x29, unary.w0.stored), (0x2b, 0x2b, unary.w0.memory.unmasked),
      (0x2e, 0x2f, unary.w0.er.unmasked), (0x51, 0x51, unary.w0.bcst.er),
      (0x54, 0x57, binary.w0.bcst), (0x58, 0x59, binary.w0.bcst.er), (0x5a, 0x5a, unary.w0.bcst.er),
      (0x5b, 0x5b, unary.bcst.er), (0x5c, 0x5f, binary.w0.bcst.er), (0x78, 0x79, unary.bcst.er),
      (0xc2, 0xc2, binary.w0.toEight.bcst.er), (0xc6, 0xc6, binary.w0.bcst)]
  | .p66 =>
    [(0x10, 0x10, unary.w1), (0x11, 0x11, unary.w1.stored),
      (0x12, 0x12, binary.w1.l128.memory.unmasked), (0x13, 0x13, unary.w1.l128.memory.unmasked),
      (0x14, 0x15, binary.w1.bcst), (0x16, 0x16, binary.w1.l128.memory.unmasked),
      (0x17, 0x17, unary.w1.l128.memory.unmasked), (0x28, 0x28, unary.w1),
      (0x29, 0x29, unary.w1.stored), (0x2b, 0x2b, unary.w1.memory.unmasked),
      (0x2e, 0x2f, unary.w1.er.unmasked), (0x51, 0x51, unary.w1.bcst.er),
      (0x54, 0x57, binary.w1.bcst), (0x58, 0x59, binary.w1.bcst.er), (0x5a, 0x5a, unary.w1.bcst.er),
      (0x5b, 0x5b, unary.w0.bcst.er), (0x5c, 0x5f, binary.w1.bcst.er), (0x60, 0x61, binary),
      (0x62, 0x62, binary.w0.bcst), (0x63, 0x63, binary), (0x64, 0x65, binary.toEight),
      (0x66, 0x66, binary.w0.toEight.bcst), (0x67, 0x69, binary), (0x6a, 0x6b, binary.w0.bcst),
      (0x6c, 0x6d, binary.w1.bcst), (0x6e, 0x6e, unary.l128.unmasked), (0x6f, 0x6f, unary),
      (0x70, 0x70, unary.w0.bcst), (0x71, 0x71, binary.group [2, 4, 6]),
      (0x72, 0x72, binary.bcst.group [0, 1]), (0x72, 0x72, binary.w0.bcst.group [2]),
      (0x72, 0x72, binary.bcst.group [4]), (0x72, 0x72, binary.w0.bcst.group [6]),
      (0x73, 0x73, binary.w1.bcst.group [2]), (0x73, 0x73, binary.unmasked.group [3]),
      (0x73, 0x73, binary.w1.bcst.group [6]), (0x73, 0x73, binary.unmasked.group [7]),
      (0x74, 0x75, binary.toEight), (0x76, 0x76, binary.w0.toEight.bcst),
      (0x78, 0x7b, unary.bcst.er), (0x7e, 0x7e, unary.l128.unmasked), (0x7f, 0x7f, unary.stored),
      (0xc2, 0xc2, binary.w1.toEight.bcst.er), (0xc4, 0xc4, binary.l128.unmasked),
      (0xc5, 0xc5, unary.l128.register.toGeneral.unmasked), (0xc6, 0xc6, binary.w1.bcst),
      (0xd1, 0xd1, binary), (0xd2, 0xd2, binary.w0), (0xd3, 0xd3, binary.w1),
      (0xd4, 0xd4, binary.w1.bcst), (0xd5, 0xd5, binary), (0xd6, 0xd6, unary.w1.l128.unmasked),
      (0xd8, 0xda, binary), (0xdb, 0xdb, binary.bcst), (0xdc, 0xde, binary),
      (0xdf, 0xdf, binary.bcst), (0xe0, 0xe5, binary), (0xe6, 0xe6, unary.w1.bcst.er),
      (0xe7, 0xe7, unary.w0.memory.unmasked), (0xe8, 0xea, binary), (0xeb, 0xeb, binary.bcst),
      (0xec, 0xee, binary), (0xef, 0xef, binary.bcst), (0xf1, 0xf1, binary),
      (0xf2, 0xf2, binary.w0), (0xf3, 0xf3, binary.w1), (0xf4, 0xf4, binary.w1.bcst),
      (0xf5, 0xf5, binary), (0xf6, 0xf6, binary.unmasked), (0xf8, 0xf9, binary),
      (0xfa, 0xfa, binary.w0.bcst), (0xfb, 0xfb, binary.w1.bcst), (0xfc, 0xfd, binary),
      (0xfe, 0xfe, binary.w0.bcst)]
  | .pF3 =>
    [(0x10, 0x10, binary.w0.register), (0x10, 0x10, unary.w0.memory),
      (0x11, 0x11, binary.w0.register), (0x11, 0x11, unary.w0.memory.stored),
      (0x12, 0x12, unary.w0), (0x16, 0x16, unary.w0), (0x2a, 0x2a, binary.er.unmasked),
      (0x2c, 0x2d, unary.toGeneral.er.unmasked), (0x51, 0x51, binary.w0.er),
      (0x58, 0x5a, binary.w0.er), (0x5b, 0x5b, unary.w0.bcst.er), (0x5c, 0x5f, binary.w0.er),
      (0x6f, 0x70, unary), (0x78, 0x79, unary.toGeneral.er.unmasked), (0x7a, 0x7a, unary.bcst.er),
      (0x7b, 0x7b, binary.er.unmasked), (0x7e, 0x7e, unary.w1.l128.unmasked),
      (0x7f, 0x7f, unary.stored), (0xc2, 0xc2, binary.w0.toEight.er), (0xe6, 0xe6, unary.bcst.er)]
  | .pF2 =>
    [(0x10, 0x10, binary.w1.register), (0x10, 0x10, unary.w1.memory),
      (0x11, 0x11, binary.w1.register), (0x11, 0x11, unary.w1.memory.stored),
      (0x12, 0x12, unary.w1), (0x2a, 0x2a, binary.er.unmasked),
      (0x2c, 0x2d, unary.toGeneral.er.unmasked), (0x51, 0x51, binary.w1.er),
      (0x58, 0x5a, binary.w1.er), (0x5c, 0x5f, binary.w1.er), (0x6f, 0x70, unary),
      (0x78, 0x79, unary.toGeneral.er.unmasked), (0x7a, 0x7a, unary.bcst.er),
      (0x7b, 0x7b, binary.er.unmasked), (0x7f, 0x7f, unary.stored),
      (0xc2, 0xc2, binary.w1.toEight.er), (0xe6, 0xe6, unary.w1.bcst.er)]

/-- The map of the escape 0F 38. -/
def rows0F38 : Selector → List ShapeRow
  | .p66 =>
    [(0x00, 0x00, binary), (0x04, 0x04, binary), (0x0b, 0x0b, binary), (0x0c, 0x0c, binary.w0.bcst),
      (0x0d, 0x0d, binary.w1.bcst), (0x10, 0x12, binary.w1), (0x13, 0x13, unary.w0.er),
      (0x14, 0x15, binary.bcst), (0x16, 0x16, binary.from256.bcst), (0x18, 0x18, unary.w0),
      (0x19, 0x19, unary.from256), (0x1a, 0x1a, unary.from256.memory),
      (0x1b, 0x1b, unary.l512.memory), (0x1c, 0x1d, unary), (0x1e, 0x1e, unary.w0.bcst),
      (0x1f, 0x1f, unary.w1.bcst), (0x20, 0x24, unary), (0x25, 0x25, unary.w0),
      (0x26, 0x26, binary.toEight), (0x27, 0x27, binary.toEight.bcst), (0x28, 0x28, binary.w1.bcst),
      (0x29, 0x29, binary.w1.toEight.bcst), (0x2a, 0x2a, unary.w0.memory.unmasked),
      (0x2b, 0x2b, binary.w0.bcst), (0x2c, 0x2c, binary.bcst.er), (0x2d, 0x2d, binary.er),
      (0x30, 0x34, unary), (0x35, 0x35, unary.w0), (0x36, 0x36, binary.from256.bcst),
      (0x37, 0x37, binary.w1.toEight.bcst), (0x38, 0x38, binary), (0x39, 0x39, binary.bcst),
      (0x3a, 0x3a, binary), (0x3b, 0x3b, binary.bcst), (0x3c, 0x3c, binary),
      (0x3d, 0x3d, binary.bcst), (0x3e, 0x3e, binary), (0x3f, 0x40, binary.bcst),
      (0x42, 0x42, unary.bcst.er), (0x43, 0x43, binary.er), (0x44, 0x44, unary.bcst),
      (0x45, 0x47, binary.bcst), (0x4c, 0x4c, unary.bcst), (0x4d, 0x4d, binary),
      (0x4e, 0x4e, unary.bcst), (0x4f, 0x4f, binary), (0x50, 0x53, binary.w0.bcst),
      (0x54, 0x54, unary), (0x55, 0x55, unary.bcst), (0x58, 0x58, unary.w0), (0x59, 0x59, unary),
      (0x5a, 0x5a, unary.from256.memory), (0x5b, 0x5b, unary.l512.memory), (0x62, 0x62, unary),
      (0x63, 0x63, unary.stored), (0x64, 0x65, binary.bcst), (0x66, 0x66, binary),
      (0x70, 0x70, binary.w1), (0x71, 0x71, binary.bcst), (0x72, 0x72, binary.w1),
      (0x73, 0x73, binary.bcst), (0x75, 0x75, binary), (0x76, 0x77, binary.bcst),
      (0x78, 0x79, unary.w0), (0x7a, 0x7b, unary.w0.register), (0x7c, 0x7c, unary.register),
      (0x7d, 0x7d, binary), (0x7e, 0x7f, binary.bcst), (0x83, 0x83, binary.w1.bcst),
      (0x88, 0x89, unary), (0x8a, 0x8b, unary.stored), (0x8d, 0x8d, binary),
      (0x8f, 0x8f, binary.w0.toEight), (0x90, 0x93, gathers), (0xa0, 0xa3, scatters),
      (0xb4, 0xb5, binary.w1.bcst), (0xc4, 0xc4, unary.bcst),
      (0xc6, 0xc7, scatters.l512.group [1, 2, 5, 6]), (0xc8, 0xc8, unary.l512.bcst.er),
      (0xca, 0xca, unary.l512.bcst.er), (0xcb, 0xcb, binary.er), (0xcc, 0xcc, unary.l512.bcst.er),
      (0xcd, 0xcd, binary.er), (0xcf, 0xcf, binary.w0), (0xdc, 0xdf, binary.unmasked)]
      ++ fusedMultiplyAdds binary
  | .pF3 =>
    [(0x10, 0x15, unary.w0.stored), (0x20, 0x25, unary.w0.stored), (0x26, 0x26, binary.toEight),
      (0x27, 0x27, binary.toEight.bcst), (0x28, 0x28, unary.register.unmasked),
      (0x29, 0x29, unary.register.toEight.unmasked), (0x2a, 0x2a, unary.w1.register.unmasked),
      (0x30, 0x35, unary.w0.stored), (0x38, 0x38, unary.register.unmasked),
      (0x39, 0x39, unary.register.toEight.unmasked), (0x3a, 0x3a, unary.w0.register.unmasked),
      (0x52, 0x52, binary.w0.bcst), (0x72, 0x72, unary.w0.bcst)]
  | .pF2 =>
    [(0x52, 0x53, binary.w0.l512.memory), (0x68, 0x68, binary.toEight.bcst.unmasked),
      (0x72, 0x72, binary.w0.bcst), (0x9a, 0x9a, binary.w0.l512.memory),
      (0x9b, 0x9b, binary.w0.memory), (0xaa, 0xaa, binary.w0.l512.memory),
      (0xab, 0xab, binary.w0.memory)]
  | _ => []

/-- The map of the escape 0F 3A. -/
def rows0F3A : Selector → List ShapeRow
  | .none =>
    [(0x08, 0x08, unary.w0.bcst.er), (0x0a, 0x0a, binary.w0.er), (0x26, 0x26, unary.w0.bcst.er),
      (0x27, 0x27, binary.w0.er), (0x56, 0x56, unary.w0.bcst.er), (0x57, 0x57, binary.w0.er),
      (0x66, 0x66, unary.w0.toEight.bcst), (0x67, 0x67, unary.w0.toEight),
      (0xc2, 0xc2, binary.w0.toEight.bcst.er)]
  | .p66 =>
    [(0x00, 0x01, unary.w1.from256.bcst), (0x03, 0x03, binary.bcst), (0x04, 0x04, unary.w0.bcst),
      (0x05, 0x05, unary.w1.bcst), (0x08, 0x08, unary.w0.bcst.er), (0x09, 0x09, unary.w1.bcst.er),
      (0x0a, 0x0a, binary.w0.er), (0x0b, 0x0b, binary.w1.er), (0x0f, 0x0f, binary),
      (0x14, 0x17, unary.l128.unmasked), (0x18, 0x18, binary.from256),
      (0x19, 0x19, unary.from256.stored), (0x1a, 0x1a, binary.l512),
      (0x1b, 0x1b, unary.l512.stored), (0x1d, 0x1d, unary.w0.er.stored),
      (0x1e, 0x1f, binary.toEight.bcst), (0x20, 0x20, binary.l128.unmasked),
      (0x21, 0x21, binary.w0.l128.unmasked), (0x22, 0x22, binary.l128.unmasked),
      (0x23, 0x23, binary.from256.bcst), (0x25, 0x25, binary.bcst), (0x26, 0x26, unary.bcst.er),
      (0x27, 0x27, binary.er), (0x38, 0x38, binary.from256), (0x39, 0x39, unary.from256.stored),
      (0x3a, 0x3a, binary.l512), (0x3b, 0x3b, unary.l512.stored), (0x3e, 0x3f, binary.toEight),
      (0x42, 0x42, binary.w0), (0x43, 0x43, binary.from256.bcst), (0x44, 0x44, binary.unmasked),
      (0x50, 0x50, binary.bcst.er), (0x51, 0x51, binary.er), (0x54, 0x54, binary.bcst.er),
      (0x55, 0x55, binary.er), (0x56, 0x56, unary.bcst.er), (0x57, 0x57, binary.er),
      (0x66, 0x66, unary.toEight.bcst), (0x67, 0x67, unary.toEight), (0x70, 0x70, binary.w1),
      (0x71, 0x71, binary.bcst), (0x72, 0x72, binary.w1), (0x73, 0x73, binary.bcst),
      (0xce, 0xcf, binary.w1.bcst)]
  | .pF3 => [(0xc2, 0xc2, binary.w0.toEight.er)]
  | _ => []

/-- The fifth map: half-precision arithmetic and conversions. -/
def rows5 : Selector → List ShapeRow
  | .none =>
    [(0x1d, 0x1d, binary.w0.er), (0x2e, 0x2f, unary.w0.er.unmasked), (0x51, 0x51, unary.w0.bcst.er),
      (0x58, 0x59, binary.w0.bcst.er), (0x5a, 0x5a, unary.w0.bcst.er), (0x5b, 0x5b, unary.bcst.er),
      (0x5c, 0x5f, binary.w0.bcst.er), (0x78, 0x79, unary.w0.bcst.er),
      (0x7c, 0x7d, unary.w0.bcst.er)]
  | .p66 =>
    [(0x1d, 0x1d, unary.w0.bcst.er), (0x5a, 0x5a, unary.w1.bcst.er), (0x5b, 0x5b, unary.w0.bcst.er),
      (0x6e, 0x6e, unary.l128.unmasked), (0x78, 0x7d, unary.w0.bcst.er),
      (0x7e, 0x7e, unary.l128.unmasked)]
  | .pF3 =>
    [(0x10, 0x10, binary.w0.register), (0x10, 0x10, unary.w0.memory),
      (0x11, 0x11, binary.w0.register), (0x11, 0x11, unary.w0.memory.stored),
      (0x2a, 0x2a, binary.er.unmasked), (0x2c, 0x2d, unary.toGeneral.er.unmasked),
      (0x51, 0x51, binary.w0.er), (0x58, 0x5a, binary.w0.er), (0x5b, 0x5b, unary.w0.bcst.er),
      (0x5c, 0x5f, binary.w0.er), (0x78, 0x79, unary.toGeneral.er.unmasked),
      (0x7b, 0x7b, binary.er.unmasked), (0x7d, 0x7d, unary.w0.bcst.er)]
  | .pF2 =>
    [(0x5a, 0x5a, binary.w1.er), (0x7a, 0x7a, unary.bcst.er), (0x7d, 0x7d, unary.w0.bcst.er)]

/-- The sixth map: half-precision multiplications with addition, and approximations. -/
def rows6 : Selector → List ShapeRow
  | .none => [(0x13, 0x13, binary.w0.er)]
  | .p66 =>
    [(0x13, 0x13, unary.w0.bcst.er), (0x2c, 0x2c, binary.w0.bcst.er), (0x2d, 0x2d, binary.w0.er),
      (0x42, 0x42, unary.w0.bcst.er), (0x43, 0x43, binary.w0.er), (0x4c, 0x4c, unary.w0.bcst),
      (0x4d, 0x4d, binary.w0), (0x4e, 0x4e, unary.w0.bcst), (0x4f, 0x4f, binary.w0)]
      ++ fusedMultiplyAdds binary.w0
  | .pF3 | .pF2 =>
    [(0x56, 0x56, binary.w0.bcst.er.apart), (0x57, 0x57, binary.w0.er.apart),
      (0xd6, 0xd6, binary.w0.bcst.er.apart), (0xd7, 0xd7, binary.w0.er.apart)]

/-- The map of a number. -/
def rows (map : Nat) (selector : Selector) : List ShapeRow :=
  match map with
  | 1 => rows0F selector
  | 2 => rows0F38 selector
  | 3 => rows0F3A selector
  | 5 => rows5 selector
  | 6 => rows6 selector
  | _ => []

end LongMode.Decode.Evex
