/-!
What a page permits and what an access asks for. Permissions are read from the flag words of
executable images and of memory-protection calls, and are written as three characters such as `rw-`.
-/

set_option autoImplicit false
set_option relaxedAutoImplicit false

namespace LongMode

/-- The kind of access a page is asked for. -/
inductive Access where
  | read
  | write
  | execute
  deriving DecidableEq, Repr

/-- The word for an access in fault messages. -/
def Access.name : Access → String
  | .read => "read"
  | .write => "write"
  | .execute => "execute"

/-- The accesses that a page permits. -/
structure Permissions where
  /-- Loads are permitted. -/
  read : Bool := false
  /-- Stores are permitted. -/
  write : Bool := false
  /-- Instruction fetches are permitted. -/
  execute : Bool := false
  deriving DecidableEq, Repr

namespace Permissions

/-- Readable and writable. -/
def readWrite : Permissions := ⟨true, true, false⟩

/-- Readable and executable. -/
def readExecute : Permissions := ⟨true, false, true⟩

/-- Whether an access is among the permitted ones. -/
def allows (p : Permissions) : Access → Bool
  | .read => p.read
  | .write => p.write
  | .execute => p.execute

/-- Permissions of a program segment: bit 2 is read, bit 1 is write, bit 0 is execute. -/
def ofSegmentFlags (flags : Nat) : Permissions :=
  ⟨flags.testBit 2, flags.testBit 1, flags.testBit 0⟩

/-- Permissions of a protection argument: bit 0 is read, bit 1 is write, bit 2 is execute. -/
def ofProtection (bits : Nat) : Permissions :=
  ⟨bits.testBit 0, bits.testBit 1, bits.testBit 2⟩

/-- The three-character form: a letter for each permission and a dash for each one missing. -/
def text (p : Permissions) : String :=
  (if p.read then "r" else "-") ++ (if p.write then "w" else "-")
    ++ (if p.execute then "x" else "-")

end Permissions

end LongMode
