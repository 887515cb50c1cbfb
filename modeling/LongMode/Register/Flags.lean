/-!
The flag word. A flag is a bit position of a 64-bit word; instructions change single flags and leave
every other bit as it is. Conditions are the sixteen tests that branches, moves and sets make.
-/

set_option autoImplicit false
set_option relaxedAutoImplicit false

namespace LongMode

/-- The named flags. -/
inductive Flag where
  | carry
  | parity
  | adjust
  | zero
  | sign
  | trap
  | interrupt
  | direction
  | overflow
  | alignment
  | identification
  deriving DecidableEq, Repr

/-- The bit position of a flag. -/
def Flag.position : Flag → Nat
  | .carry => 0
  | .parity => 2
  | .adjust => 4
  | .zero => 6
  | .sign => 7
  | .trap => 8
  | .interrupt => 9
  | .direction => 10
  | .overflow => 11
  | .alignment => 18
  | .identification => 21

/-- The six flags that arithmetic sets. -/
def Flag.status : List Flag :=
  [.carry, .parity, .adjust, .zero, .sign, .overflow]

/-- The flags that a program may load from the stack. -/
def Flag.userWritable : List Flag :=
  Flag.status ++ [.trap, .direction, .alignment, .identification]

/-- The flag word of a thread. -/
abbrev Flags := BitVec 64

namespace Flags

/-- Bit 1, which reads as one at all times. -/
def fixed : Flags := 0x2

/-- The flag word of a new thread: bit 1 and the interrupt flag. -/
def initial : Flags := 0x202

/-- The word in which exactly the given flags are set. -/
def mask (flags : List Flag) : Flags :=
  flags.foldl (fun word flag => word ||| 1#64 <<< flag.position) 0

/-- The value of a flag. -/
def get (word : Flags) (flag : Flag) : Bool :=
  word.getLsbD flag.position

/-- Give a flag a value. -/
def set (word : Flags) (flag : Flag) (value : Bool) : Flags :=
  if value then word ||| 1#64 <<< flag.position
  else word &&& ~~~(1#64 <<< flag.position)

/-- Clear several flags. -/
def clear (word : Flags) (flags : List Flag) : Flags :=
  flags.foldl (fun word flag => word.set flag false) word

end Flags

/-- The sixteen conditions on flags, in encoding order. -/
inductive Condition where
  | overflow
  | noOverflow
  | below
  | aboveOrEqual
  | equal
  | notEqual
  | belowOrEqual
  | above
  | sign
  | noSign
  | parity
  | noParity
  | less
  | greaterOrEqual
  | lessOrEqual
  | greater
  deriving DecidableEq, Repr

namespace Condition

/-- The condition of a four-bit encoding. -/
def ofCode (n : Nat) : Condition :=
  match n % 16 with
  | 0 => overflow
  | 1 => noOverflow
  | 2 => below
  | 3 => aboveOrEqual
  | 4 => equal
  | 5 => notEqual
  | 6 => belowOrEqual
  | 7 => above
  | 8 => sign
  | 9 => noSign
  | 10 => parity
  | 11 => noParity
  | 12 => less
  | 13 => greaterOrEqual
  | 14 => lessOrEqual
  | _ => greater

/-- The letters that stand for a condition in instruction names. -/
def name : Condition → String
  | overflow => "o"
  | noOverflow => "no"
  | below => "b"
  | aboveOrEqual => "ae"
  | equal => "e"
  | notEqual => "ne"
  | belowOrEqual => "be"
  | above => "a"
  | sign => "s"
  | noSign => "ns"
  | parity => "p"
  | noParity => "np"
  | less => "l"
  | greaterOrEqual => "ge"
  | lessOrEqual => "le"
  | greater => "g"

/-- Whether a condition holds of a flag word. -/
def holds (c : Condition) (f : Flags) : Bool :=
  match c with
  | overflow => f.get .overflow
  | noOverflow => !f.get .overflow
  | below => f.get .carry
  | aboveOrEqual => !f.get .carry
  | equal => f.get .zero
  | notEqual => !f.get .zero
  | belowOrEqual => f.get .carry || f.get .zero
  | above => !f.get .carry && !f.get .zero
  | sign => f.get .sign
  | noSign => !f.get .sign
  | parity => f.get .parity
  | noParity => !f.get .parity
  | less => f.get .sign != f.get .overflow
  | greaterOrEqual => f.get .sign == f.get .overflow
  | lessOrEqual => f.get .zero || f.get .sign != f.get .overflow
  | greater => !f.get .zero && f.get .sign == f.get .overflow

end Condition

end LongMode
