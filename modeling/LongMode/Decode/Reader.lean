/-!
Byte readers. A reader is a tree: it is done, it rejects, or it asks for one more byte and goes on
from there. Running it on a window of bytes therefore depends on the bytes it consumed and on
nothing else, which is what makes it safe to remember a decoded instruction by its own bytes.
-/

set_option autoImplicit false
set_option relaxedAutoImplicit false

namespace LongMode

/-- A process that consumes bytes one at a time and produces an `α`. -/
inductive Reader (α : Type) where
  /-- Finished with a value. -/
  | done (value : α)
  /-- No continuation of the bytes read is acceptable. -/
  | reject
  /-- Goes on with the next byte. -/
  | byte (k : UInt8 → Reader α)

namespace Reader

/-- Run a second reader on what the first one leaves. -/
def bind {α β : Type} : Reader α → (α → Reader β) → Reader β
  | done value, f => f value
  | reject, _ => reject
  | byte k, f => byte fun b => (k b).bind f

instance : Monad Reader where
  pure := done
  bind := bind

/-- The outcome of running a reader on a window. -/
inductive Outcome (α : Type) where
  /-- The value, and how many bytes were consumed. -/
  | complete (value : α) (length : Nat)
  /-- The bytes are not acceptable. -/
  | rejected
  /-- The window ended first. -/
  | truncated

/-- Run a reader on a window of which `taken` bytes came before. -/
def run {α : Type} : Reader α → (taken : Nat) → List UInt8 → Outcome α
  | done value, taken, _ => .complete value taken
  | reject, _, _ => .rejected
  | byte _, _, [] => .truncated
  | byte k, taken, b :: bs => (k b).run (taken + 1) bs

/-- Consume one byte. -/
def next : Reader Nat :=
  byte fun b => done b.toNat

/-- Consume a little-endian number of `count` bytes. -/
def number : (count : Nat) → Reader Nat
  | 0 => done 0
  | count + 1 => do
    let low ← next
    let high ← number count
    return low + 256 * high

/-- Consume a two's-complement number of `count` bytes and extend it to 64 bits. -/
def signed (count : Nat) : Reader (BitVec 64) := do
  let n ← number count
  return (BitVec.ofNat (8 * count) n).signExtend 64

end Reader

end LongMode
