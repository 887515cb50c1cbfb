/-!
Reading numbers: one or more digits of a base, of either case, behind at most one plus sign, that
denote a number below a limit.
-/

set_option autoImplicit false
set_option relaxedAutoImplicit false

namespace LongMode.Text

/-- The value of a decimal digit or of a letter that stands for a digit above nine. -/
def digitValue? (c : Char) : Option Nat :=
  if '0' ≤ c ∧ c ≤ '9' then some (c.toNat - '0'.toNat)
  else if 'a' ≤ c ∧ c ≤ 'z' then some (c.toNat - 'a'.toNat + 10)
  else if 'A' ≤ c ∧ c ≤ 'Z' then some (c.toNat - 'A'.toNat + 10)
  else none

/-- The value of a digit of a base. -/
def digit? (base : Nat) (c : Char) : Option Nat :=
  (digitValue? c).filter (· < base)

/-- The number that digits denote; none if one of them is no digit of the base. -/
def digits? (base : Nat) (text : List Char) : Option Nat :=
  (text.mapM (digit? base)).map fun values => values.foldl (fun n d => n * base + d) 0

/-- A text without a plus sign at its start. -/
def dropPlus : List Char → List Char
  | '+' :: rest => rest
  | text => text

/-- The number below `limit` that a text denotes. -/
def number? (base limit : Nat) (text : List Char) : Option Nat :=
  let digits := dropPlus text
  if digits.isEmpty then none else (digits? base digits).filter (· < limit)

end LongMode.Text
