/-!
Numbers as byte strings, lowest byte first. `ofNat` writes as many bytes as asked and drops the rest
of the number; `toNat` reads a byte string back.
-/

set_option autoImplicit false
set_option relaxedAutoImplicit false

namespace LongMode.LittleEndian

/-- The number that a byte string denotes. -/
def toNat : List UInt8 → Nat
  | [] => 0
  | b :: bs => b.toNat + 256 * toNat bs

/-- The `count` lowest bytes of a number. -/
def ofNat : (count : Nat) → Nat → List UInt8
  | 0, _ => []
  | count + 1, n => UInt8.ofNat n :: ofNat count (n / 256)

theorem length_ofNat (count n : Nat) : (ofNat count n).length = count := by
  induction count generalizing n with
  | zero => rfl
  | succ count ih => simp [ofNat, ih]

end LongMode.LittleEndian
