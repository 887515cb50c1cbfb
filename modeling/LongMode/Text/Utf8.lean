/-!
UTF-8. `Utf8.scan` cuts a byte string into characters and into pieces that belong to none: a byte
that starts no character, or a beginning of a character that does not go on. Strict decoding refuses
such pieces, lenient decoding puts the replacement character in the place of each.
-/

set_option autoImplicit false
set_option relaxedAutoImplicit false

namespace LongMode.Text.Utf8

/-- A closed range of byte values. -/
structure ByteRange where
  /-- The least byte. -/
  low : UInt8
  /-- The greatest byte. -/
  high : UInt8
  deriving DecidableEq, Repr

/-- Whether a byte is in a range. -/
def ByteRange.contains (r : ByteRange) (b : UInt8) : Bool :=
  r.low ≤ b && b ≤ r.high

/-- The bytes that go on with a character. -/
def tail : ByteRange := ⟨0x80, 0xbf⟩

/-- The ranges of the bytes that follow a first byte; none for a byte that starts no character. The
second byte is limited where a longer form than needed, a surrogate or a number above 0x10FFFF would
result. -/
def tailRanges? (first : UInt8) : Option (List ByteRange) :=
  if first < 0x80 then some []
  else if first < 0xc2 then none
  else if first < 0xe0 then some [tail]
  else if first = 0xe0 then some [⟨0xa0, 0xbf⟩, tail]
  else if first = 0xed then some [⟨0x80, 0x9f⟩, tail]
  else if first < 0xf0 then some [tail, tail]
  else if first = 0xf0 then some [⟨0x90, 0xbf⟩, tail, tail]
  else if first < 0xf4 then some [tail, tail, tail]
  else if first = 0xf4 then some [⟨0x80, 0x8f⟩, tail, tail]
  else none

/-- The longest run of bytes that are in the given ranges one by one, and the bytes after it. -/
def takeRanges : List ByteRange → List UInt8 → List UInt8 × List UInt8
  | range :: ranges, b :: bytes =>
    if range.contains b then
      let (taken, rest) := takeRanges ranges bytes
      (b :: taken, rest)
    else ([], b :: bytes)
  | _, bytes => ([], bytes)

theorem length_takeRanges_le (ranges : List ByteRange) (bytes : List UInt8) :
    (takeRanges ranges bytes).2.length ≤ bytes.length := by
  fun_induction takeRanges ranges bytes with
  | case1 range ranges b bytes _ taken rest h ih =>
    rw [h] at ih
    exact Nat.le_succ_of_le ih
  | case2 => exact Nat.le_refl _
  | case3 => exact Nat.le_refl _

/-- The code point of a first byte and the bytes that follow it: six bits from each of these, and
from the first byte what its mark of length leaves. -/
def codePoint (first : UInt8) (rest : List UInt8) : Nat :=
  let high :=
    match rest.length with
    | 0 => first.toNat
    | 1 => first.toNat % 32
    | 2 => first.toNat % 16
    | _ => first.toNat % 8
  rest.foldl (fun n b => n * 64 + b.toNat % 64) high

/-- The characters of a byte string, with `none` for every piece that belongs to no character. -/
def scan : List UInt8 → List (Option Char)
  | [] => []
  | first :: bytes =>
    match tailRanges? first with
    | none => none :: scan bytes
    | some ranges =>
      have : (takeRanges ranges bytes).2.length ≤ bytes.length := length_takeRanges_le ranges bytes
      let taken := (takeRanges ranges bytes).1
      (if taken.length = ranges.length then some (Char.ofNat (codePoint first taken)) else none)
        :: scan (takeRanges ranges bytes).2
  termination_by bytes => bytes.length

/-- The text that a byte string encodes, if every byte belongs to a character. -/
def decode? (bytes : List UInt8) : Option String :=
  ((scan bytes).mapM id).map String.ofList

/-- The text that a byte string encodes, with U+FFFD for every piece that belongs to no
character. -/
def decodeLenient (bytes : List UInt8) : String :=
  String.ofList ((scan bytes).map (·.getD '\uFFFD'))

/-- The bytes that encode a text. -/
def encode (text : String) : List UInt8 :=
  text.toUTF8.data.toList

end LongMode.Text.Utf8
