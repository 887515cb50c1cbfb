/-!
Hexadecimal text, in lower case: numbers without leading zeros, with or without the `0x` mark, and
bytes as pairs of digits. Fault messages and reports are written with it.
-/

set_option autoImplicit false
set_option relaxedAutoImplicit false

namespace LongMode.Text

/-- The lower-case hexadecimal digits of a number; zero has the one digit `0`. -/
def hexDigits (n : Nat) : String :=
  String.ofList (Nat.toDigits 16 n)

/-- The hexadecimal digits of a number behind the mark `0x`. -/
def hex (n : Nat) : String :=
  "0x" ++ hexDigits n

/-- A byte as two hexadecimal digits. -/
def hexByte (b : UInt8) : String :=
  let digits := hexDigits b.toNat
  if b < 16 then "0" ++ digits else digits

/-- Bytes as pairs of hexadecimal digits. -/
def hexBytes (bytes : List UInt8) : String :=
  String.join (bytes.map hexByte)

end LongMode.Text
