import LongMode.Memory.Address
import LongMode.Memory.Permissions
import LongMode.Text.Hex

/-!
The two ways in which memory refuses: a `MemoryFault` answers an access to bytes, a `MapError` an
operation on the page table. Each cause is a constructor, and its wording is in one function.
-/

set_option autoImplicit false
set_option relaxedAutoImplicit false

namespace LongMode

open Text

/-- Why an access to bytes was refused. -/
inductive MemoryFault where
  /-- No page holds the address. -/
  | unmapped (address : Address) (access : Access)
  /-- The page that holds the address does not permit the access. -/
  | denied (address : Address) (access : Access)
  /-- The operand has to lie at a multiple of `alignment`. -/
  | misaligned (address : Address) (alignment : Nat)
  deriving DecidableEq, Repr

/-- The lowest address that was refused. -/
def MemoryFault.address : MemoryFault → Address
  | .unmapped address _ => address
  | .denied address _ => address
  | .misaligned address _ => address

/-- The name of a fault in reports. -/
def MemoryFault.name : MemoryFault → String
  | .unmapped _ _ => "Unmapped"
  | .denied _ _ => "PermissionDenied"
  | .misaligned _ _ => "Misaligned"

/-- The wording of a fault. -/
def MemoryFault.message : MemoryFault → String
  | .unmapped address access =>
    access.name ++ " of unmapped guest address " ++ hex address.toNat
  | .denied address access =>
    access.name ++ " of guest address " ++ hex address.toNat ++ " denied by page permissions"
  | .misaligned address alignment =>
    "misaligned " ++ toString alignment ++ "-byte access at guest address " ++ hex address.toNat

/-- Why an operation on the page table was refused. -/
inductive MapError where
  /-- The range holds a page already; `existing` is the lowest one. -/
  | overlap (start stop existing : Address)
  /-- The range holds a page that is not mapped; `hole` is the lowest one. -/
  | notMapped (start stop hole : Address)
  /-- The start of the range is no page boundary. -/
  | unaligned (address : Address)
  /-- The length is zero, runs past the end of memory, or exceeds what backs it. -/
  | invalidLength (start : Address) (length : Nat)
  /-- No gap of the mapping window is long enough. -/
  | outOfAddressSpace (length : Nat)
  deriving DecidableEq, Repr

/-- The name of a page-table error in reports. -/
def MapError.name : MapError → String
  | .overlap .. => "Overlap"
  | .notMapped .. => "NotMapped"
  | .unaligned _ => "Unaligned"
  | .invalidLength .. => "InvalidLength"
  | .outOfAddressSpace _ => "OutOfAddressSpace"

/-- The wording of a page-table error. -/
def MapError.message : MapError → String
  | .overlap start stop existing =>
    "range " ++ hex start.toNat ++ ".." ++ hex stop.toNat ++ " overlaps existing page "
      ++ hex existing.toNat
  | .notMapped start stop hole =>
    "range " ++ hex start.toNat ++ ".." ++ hex stop.toNat ++ " is not fully mapped (first hole at "
      ++ hex hole.toNat ++ ")"
  | .unaligned address => "address " ++ hex address.toNat ++ " is not page aligned"
  | .invalidLength start length =>
    "invalid range length " ++ hex length ++ " at " ++ hex start.toNat
  | .outOfAddressSpace length => "no free " ++ hex length ++ "-byte range in the mmap window"

end LongMode
