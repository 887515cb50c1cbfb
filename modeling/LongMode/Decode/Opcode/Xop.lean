import LongMode.Decode.Opcode.Shape

/-!
The opcode maps behind XOP. The machine executes none of these instructions, so the tables give
only the shapes under which an opcode exists.
-/

set_option autoImplicit false
set_option relaxedAutoImplicit false

namespace LongMode.Decode.Xop

open Shape

/-- The map of a number. No instruction has a selecting prefix. -/
def rows (map : Nat) : List ShapeRow :=
  match map with
  | 8 =>
    [(0x85, 0x87, binary.w0.l128), (0x8e, 0x8f, binary.w0.l128), (0x95, 0x97, binary.w0.l128),
      (0x9e, 0x9f, binary.w0.l128), (0xa2, 0xa2, binary), (0xa3, 0xa3, binary.l128),
      (0xa6, 0xa6, binary.w0.l128), (0xb6, 0xb6, binary.w0.l128), (0xc0, 0xc3, unary.w0.l128),
      (0xcc, 0xcf, binary.w0.l128), (0xec, 0xef, binary.w0.l128)]
  | 9 =>
    [(0x01, 0x01, binary.l128.group [1, 2, 3, 4, 5, 6, 7]), (0x02, 0x02, binary.l128.group [1, 6]),
      (0x12, 0x12, unary.l128.register.group [0, 1]), (0x80, 0x81, unary.w0),
      (0x82, 0x83, unary.w0.l128), (0x90, 0x9b, binary.l128), (0xc1, 0xc3, unary.w0.l128),
      (0xc6, 0xc7, unary.w0.l128), (0xcb, 0xcb, unary.w0.l128), (0xd1, 0xd3, unary.w0.l128),
      (0xd6, 0xd7, unary.w0.l128), (0xdb, 0xdb, unary.w0.l128), (0xe1, 0xe3, unary.w0.l128)]
  | 10 => [(0x10, 0x10, unary.l128), (0x12, 0x12, binary.l128.group [0, 1])]
  | _ => []

end LongMode.Decode.Xop
