import LongMode.Decode.Mnemonic

/-!
Vectors of lanes. A 128-bit word is a vector of lanes of one width, lane 0 in the low bits; `lane`
reads one and `ofLanes` builds a word from all of them. Packed integer operations are said lane by
lane.
-/

set_option autoImplicit false
set_option relaxedAutoImplicit false

namespace LongMode

/-- A vector register's contents. -/
abbrev Vector128 := BitVec 128

namespace Vector128

/-- The number of lanes of a width. -/
def laneCount (w : Width) : Nat :=
  16 / w.bytes

/-- A lane of a vector. -/
def lane (v : Vector128) (w : Width) (i : Nat) : BitVec w.bits :=
  v.extractLsb' (i * w.bits) w.bits

/-- The vector with the given lanes. -/
def ofLanes (w : Width) (f : Nat → BitVec w.bits) : Vector128 :=
  (List.range (laneCount w)).foldl (fun v i => v ||| (f i).setWidth 128 <<< (i * w.bits)) 0

/-- The vector whose lanes are a function of the lanes of another. -/
def map (w : Width) (f : BitVec w.bits → BitVec w.bits) (v : Vector128) : Vector128 :=
  ofLanes w fun i => f (v.lane w i)

/-- The vector whose lanes are a function of the lanes of two others. -/
def zip (w : Width) (f : BitVec w.bits → BitVec w.bits → BitVec w.bits) (a b : Vector128) :
    Vector128 :=
  ofLanes w fun i => f (a.lane w i) (b.lane w i)

/-- Lanes of two vectors in turn, from their low or from their high halves. -/
def interleave (w : Width) (high : Bool) (a b : Vector128) : Vector128 :=
  let first := if high then laneCount w / 2 else 0
  ofLanes w fun i => (if i % 2 = 0 then a else b).lane w (first + i / 2)

/-- A vector with its lowest lane replaced. -/
def withLowLane (v : Vector128) (w : Width) (value : BitVec w.bits) : Vector128 :=
  ofLanes w fun i => if i = 0 then value else v.lane w i

/-- All ones if a condition holds, otherwise zero. -/
def maskOf {n : Nat} (condition : Bool) : BitVec n :=
  if condition then BitVec.allOnes n else 0

/-- The sign bits of all lanes as a number, lane 0 in the lowest bit. -/
def signMask (v : Vector128) (w : Width) : Nat :=
  (List.range (laneCount w)).foldl
    (fun mask i => if (v.lane w i).msb then mask ||| 1 <<< i else mask) 0

end Vector128

open Vector128 in
/-- A packed integer operation on two vectors. -/
def PackedOp.apply (op : PackedOp) (a b : Vector128) : Vector128 :=
  match op with
  | .pxor | .xorps | .xorpd => a ^^^ b
  | .pand | .andps | .andpd => a &&& b
  | .por | .orps | .orpd => a ||| b
  | .pandn | .andnps | .andnpd => ~~~a &&& b
  | .paddb => zip .byte (· + ·) a b
  | .paddw => zip .word (· + ·) a b
  | .paddd => zip .dword (· + ·) a b
  | .paddq => zip .qword (· + ·) a b
  | .psubb => zip .byte (· - ·) a b
  | .psubw => zip .word (· - ·) a b
  | .psubd => zip .dword (· - ·) a b
  | .psubq => zip .qword (· - ·) a b
  | .pcmpeqb => zip .byte (fun x y => maskOf (x == y)) a b
  | .pcmpeqw => zip .word (fun x y => maskOf (x == y)) a b
  | .pcmpeqd => zip .dword (fun x y => maskOf (x == y)) a b
  | .pcmpgtb => zip .byte (fun x y => maskOf (y.slt x)) a b
  | .pcmpgtw => zip .word (fun x y => maskOf (y.slt x)) a b
  | .pcmpgtd => zip .dword (fun x y => maskOf (y.slt x)) a b
  | .pminub => zip .byte (fun x y => if x ≤ y then x else y) a b
  | .pmaxub => zip .byte (fun x y => if x ≤ y then y else x) a b
  | .pminsw => zip .word (fun x y => if x.sle y then x else y) a b
  | .pmaxsw => zip .word (fun x y => if x.sle y then y else x) a b
  | .punpcklbw => interleave .byte false a b
  | .punpcklwd => interleave .word false a b
  | .punpckldq | .unpcklps => interleave .dword false a b
  | .punpcklqdq | .unpcklpd => interleave .qword false a b
  | .punpckhbw => interleave .byte true a b
  | .punpckhwd => interleave .word true a b
  | .punpckhdq | .unpckhps => interleave .dword true a b
  | .punpckhqdq | .unpckhpd => interleave .qword true a b

/-- One lane shifted by a count of any size: bits run out at the width, or the sign fills the
lane. -/
def LaneShift.applyLane {n : Nat} (op : LaneShift) (x : BitVec n) (count : Nat) : BitVec n :=
  match op with
  | .left => if count < n then x <<< count else 0
  | .right => if count < n then x >>> count else 0
  | .arithmetic => x.sshiftRight (min count (n - 1))

/-- All lanes of a vector shifted by one count. -/
def LaneShift.apply (op : LaneShift) (w : Width) (v : Vector128) (count : Nat) : Vector128 :=
  v.map w (op.applyLane · count)

/-- A vector shifted by whole bytes. -/
def Vector128.shiftBytes (v : Vector128) (left : Bool) (count : Nat) : Vector128 :=
  if 16 ≤ count then 0
  else if left then v <<< (count * 8)
  else v >>> (count * 8)

/-- The two-bit selector of a lane in a constant. -/
def laneSelector (constant i : Nat) : Nat :=
  (constant >>> (2 * i)) % 4

open Vector128 in
/-- A rearrangement of lanes of the destination and the source under a constant. -/
def ShuffleOp.apply (op : ShuffleOp) (dst src : Vector128) (constant : Nat) : Vector128 :=
  match op with
  | .pshufd => ofLanes .dword fun i => src.lane .dword (laneSelector constant i)
  | .pshuflw => ofLanes .word fun i =>
      src.lane .word (if i < 4 then laneSelector constant i else i)
  | .pshufhw => ofLanes .word fun i =>
      src.lane .word (if i < 4 then i else 4 + laneSelector constant (i - 4))
  | .shufps => ofLanes .dword fun i =>
      (if i < 2 then dst else src).lane .dword (laneSelector constant i)
  | .shufpd => ofLanes .qword fun i =>
      (if i = 0 then dst else src).lane .qword ((constant >>> i) % 2)

end LongMode
