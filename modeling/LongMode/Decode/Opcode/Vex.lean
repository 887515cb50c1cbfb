import LongMode.Decode.Opcode.Shape

/-!
The opcode maps behind VEX: vector instructions of 128 and 256 bits, instructions on masks and
tiles, and bit manipulation on general registers. The machine executes none of them, so the tables
give only the shapes under which an opcode exists.
-/

set_option autoImplicit false
set_option relaxedAutoImplicit false

namespace LongMode.Decode.Vex

open Shape

/-- Operations on two masks, for which the length bit is set. -/
def masks : Shape :=
  { binary.l256.register.toEight with second := some .eight }

/-- Products of tiles: three different ones. -/
def tiles : Shape :=
  { binary.w0.l128.register.toEight.in64 with
    second := some .eight
    operand := .eight
    overlap := .forbidden }

/-- Loads of lanes from the addresses in a vector, under a mask in the second source. -/
def gathers : Shape :=
  { binary.indexed with overlap := .forbidden }

/-- The map of the escape 0F. -/
def rows0F : Selector → List ShapeRow
  | .none =>
    [(0x10, 0x11, unary), (0x12, 0x12, binary.l128), (0x13, 0x13, unary.l128.memory),
      (0x14, 0x15, binary), (0x16, 0x16, binary.l128), (0x17, 0x17, unary.l128.memory),
      (0x28, 0x29, unary), (0x2b, 0x2b, unary.memory), (0x2e, 0x2f, unary), (0x41, 0x42, masks),
      (0x44, 0x44, unary.l128.register.toEight), (0x45, 0x47, masks), (0x4a, 0x4b, masks),
      (0x50, 0x50, unary.register), (0x51, 0x53, unary), (0x54, 0x59, binary), (0x5a, 0x5b, unary),
      (0x5c, 0x5f, binary), (0x77, 0x77, unary.absent), (0x90, 0x90, unary.l128.toEight),
      (0x91, 0x91, unary.l128.memory.toEight), (0x92, 0x92, unary.w0.l128.register.toEight),
      (0x93, 0x93, unary.w0.l128.register), (0x98, 0x99, unary.l128.register.toEight),
      (0xae, 0xae, unary.l128.memory.group [2, 3]), (0xc2, 0xc2, binary), (0xc6, 0xc6, binary)]
  | .p66 =>
    [(0x10, 0x11, unary), (0x12, 0x12, binary.l128.memory), (0x13, 0x13, unary.l128.memory),
      (0x14, 0x15, binary), (0x16, 0x16, binary.l128.memory), (0x17, 0x17, unary.l128.memory),
      (0x28, 0x29, unary), (0x2b, 0x2b, unary.memory), (0x2e, 0x2f, unary), (0x41, 0x42, masks),
      (0x44, 0x44, unary.l128.register.toEight), (0x45, 0x47, masks), (0x4a, 0x4a, masks),
      (0x4b, 0x4b, masks.w0), (0x50, 0x50, unary.register), (0x51, 0x51, unary),
      (0x54, 0x59, binary), (0x5a, 0x5b, unary), (0x5c, 0x6d, binary), (0x6e, 0x6e, unary.l128),
      (0x6f, 0x70, unary), (0x71, 0x72, binary.register.group [2, 4, 6]),
      (0x73, 0x73, binary.register.group [2, 3, 6, 7]), (0x74, 0x76, binary), (0x7c, 0x7d, binary),
      (0x7e, 0x7e, unary.l128), (0x7f, 0x7f, unary), (0x90, 0x90, unary.l128.toEight),
      (0x91, 0x91, unary.l128.memory.toEight), (0x92, 0x92, unary.w0.l128.register.toEight),
      (0x93, 0x93, unary.w0.l128.register), (0x98, 0x99, unary.l128.register.toEight),
      (0xc2, 0xc2, binary), (0xc4, 0xc4, binary.l128), (0xc5, 0xc5, unary.l128.register),
      (0xc6, 0xc6, binary), (0xd0, 0xd5, binary), (0xd6, 0xd6, unary.l128),
      (0xd7, 0xd7, unary.register), (0xd8, 0xe5, binary), (0xe6, 0xe6, unary),
      (0xe7, 0xe7, unary.memory), (0xe8, 0xef, binary), (0xf1, 0xf6, binary),
      (0xf7, 0xf7, unary.l128.register), (0xf8, 0xfe, binary)]
  | .pF3 =>
    [(0x10, 0x11, binary.register), (0x10, 0x11, unary.memory), (0x12, 0x12, unary),
      (0x16, 0x16, unary), (0x2a, 0x2a, binary), (0x2c, 0x2d, unary), (0x51, 0x53, binary),
      (0x58, 0x5a, binary), (0x5b, 0x5b, unary), (0x5c, 0x5f, binary), (0x6f, 0x70, unary),
      (0x7e, 0x7e, unary.l128), (0x7f, 0x7f, unary), (0xc2, 0xc2, binary), (0xe6, 0xe6, unary)]
  | .pF2 =>
    [(0x10, 0x11, binary.register), (0x10, 0x11, unary.memory), (0x12, 0x12, unary),
      (0x2a, 0x2a, binary), (0x2c, 0x2d, unary), (0x51, 0x51, binary), (0x58, 0x5a, binary),
      (0x5c, 0x5f, binary), (0x70, 0x70, unary), (0x7c, 0x7d, binary),
      (0x92, 0x92, unary.w0.l128.register.toEight),
      (0x92, 0x92, unary.w1.l128.register.toEight.in64), (0x93, 0x93, unary.w0.l128.register),
      (0x93, 0x93, unary.w1.l128.register.in64), (0xc2, 0xc2, binary), (0xd0, 0xd0, binary),
      (0xe6, 0xe6, unary), (0xf0, 0xf0, unary.memory)]

/-- The map of the escape 0F 38. -/
def rows0F38 : Selector → List ShapeRow
  | .none =>
    [(0x49, 0x49, unary.w0.l128.memory.in64.group [0]),
      (0x49, 0x49, unary.w0.l128.firstRegister.in64.group [0]), (0x50, 0x51, binary.w0),
      (0x5e, 0x5e, tiles), (0x6c, 0x6c, tiles), (0xb0, 0xb0, unary.w0.memory),
      (0xd2, 0xd3, binary.w0), (0xda, 0xda, binary.w0.l128), (0xf2, 0xf2, binary.l128),
      (0xf3, 0xf3, binary.l128.group [1, 2, 3]), (0xf5, 0xf5, binary.l128),
      (0xf7, 0xf7, binary.l128)]
  | .p66 =>
    [(0x00, 0x0b, binary), (0x0c, 0x0d, binary.w0), (0x0e, 0x0f, unary.w0), (0x13, 0x13, unary.w0),
      (0x16, 0x16, binary.w0.l256), (0x17, 0x17, unary), (0x18, 0x18, unary.w0),
      (0x19, 0x19, unary.w0.l256), (0x1a, 0x1a, unary.w0.l256.memory), (0x1c, 0x1e, unary),
      (0x20, 0x25, unary), (0x28, 0x29, binary), (0x2a, 0x2a, unary.memory), (0x2b, 0x2b, binary),
      (0x2c, 0x2f, binary.w0.memory), (0x30, 0x35, unary), (0x36, 0x36, binary.w0.l256),
      (0x37, 0x40, binary), (0x41, 0x41, unary.l128), (0x45, 0x45, binary), (0x46, 0x46, binary.w0),
      (0x47, 0x47, binary), (0x49, 0x49, unary.w0.l128.memory.in64.group [0]),
      (0x4b, 0x4b, unary.w0.l128.scaled.toEight.in64), (0x50, 0x53, binary.w0),
      (0x58, 0x59, unary.w0), (0x5a, 0x5a, unary.w0.l256.memory), (0x5e, 0x5e, tiles),
      (0x6c, 0x6c, tiles), (0x78, 0x79, unary.w0), (0x8c, 0x8c, binary.memory),
      (0x8e, 0x8e, binary.memory), (0x90, 0x93, gathers), (0x96, 0x9f, binary),
      (0xa6, 0xaf, binary), (0xb0, 0xb1, unary.w0.memory), (0xb4, 0xb5, binary.w1),
      (0xb6, 0xbf, binary), (0xcf, 0xcf, binary.w0), (0xd2, 0xd3, binary.w0),
      (0xda, 0xda, binary.w0.l128), (0xdb, 0xdb, unary.l128), (0xdc, 0xdf, binary),
      (0xe0, 0xef, binary.l128.memory.in64), (0xf7, 0xf7, binary.l128)]
  | .pF3 =>
    [(0x4b, 0x4b, unary.w0.l128.scaled.toEight.in64), (0x50, 0x51, binary.w0), (0x5c, 0x5c, tiles),
      (0x5e, 0x5e, tiles), (0x72, 0x72, unary.w0), (0xb0, 0xb1, unary.w0.memory),
      (0xd2, 0xd3, binary.w0), (0xda, 0xda, binary.w0), (0xf5, 0xf5, binary.l128),
      (0xf7, 0xf7, binary.l128)]
  | .pF2 =>
    [(0x49, 0x49, unary.w0.l128.firstRegister.toEight.in64),
      (0x4b, 0x4b, unary.w0.l128.scaled.toEight.in64), (0x50, 0x51, binary.w0), (0x5c, 0x5c, tiles),
      (0x5e, 0x5e, tiles), (0xb0, 0xb0, unary.w0.memory), (0xcb, 0xcb, binary.w0.l256.register),
      (0xcc, 0xcd, unary.w0.l256.register), (0xda, 0xda, binary.w0), (0xf5, 0xf7, binary.l128)]

/-- The map of the escape 0F 3A. -/
def rows0F3A : Selector → List ShapeRow
  | .p66 =>
    [(0x00, 0x01, unary.w1.l256), (0x02, 0x02, binary.w0), (0x04, 0x05, unary.w0),
      (0x06, 0x06, binary.w0.l256), (0x08, 0x09, unary), (0x0a, 0x0f, binary),
      (0x14, 0x17, unary.l128), (0x18, 0x18, binary.w0.l256), (0x19, 0x19, unary.w0.l256),
      (0x1d, 0x1d, unary.w0), (0x20, 0x22, binary.l128), (0x30, 0x33, unary.l128.register.toEight),
      (0x38, 0x38, binary.w0.l256), (0x39, 0x39, unary.w0.l256), (0x40, 0x40, binary),
      (0x41, 0x41, binary.l128), (0x42, 0x42, binary), (0x44, 0x44, binary),
      (0x46, 0x46, binary.w0.l256), (0x48, 0x49, binary), (0x4a, 0x4c, binary.w0),
      (0x5c, 0x5f, binary), (0x60, 0x63, unary.l128), (0x68, 0x6f, binary), (0x78, 0x7f, binary),
      (0xce, 0xcf, binary.w1), (0xde, 0xde, binary.w0.l128), (0xdf, 0xdf, unary.l128)]
  | .pF2 => [(0xf0, 0xf0, unary.l128)]
  | _ => []

/-- The map of a number. -/
def rows (map : Nat) (selector : Selector) : List ShapeRow :=
  match map with
  | 1 => rows0F selector
  | 2 => rows0F38 selector
  | 3 => rows0F3A selector
  | _ => []

end LongMode.Decode.Vex
