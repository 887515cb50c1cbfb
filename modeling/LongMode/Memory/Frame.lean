import Std.Data.ExtTreeMap
import LongMode.Memory.Address

/-!
Frames: the storage behind pages. A frame holds one page of bytes and counts the stores made to it.
A `FrameStore` names frames by number, so that several pages, also of several address spaces, can
share one frame; a number not yet written to names a frame of zeros.

The view of a store is `FrameStore.frame`; `put` changes bytes only, `bump` the count only.
-/

set_option autoImplicit false
set_option relaxedAutoImplicit false

namespace LongMode

/-- One page of storage and the number of stores made to it. -/
structure Frame where
  /-- The contents. -/
  bytes : Vector UInt8 pageSize
  /-- How many stores the frame has seen. -/
  version : Nat

namespace Frame

/-- A page of zeros. -/
def zeroBytes : Vector UInt8 pageSize :=
  Vector.replicate pageSize 0

/-- A frame of zeros that was never stored to. -/
def zeroed : Frame := ⟨zeroBytes, 0⟩

/-- The byte at an offset; zero outside the page. -/
def get (f : Frame) (offset : Nat) : UInt8 :=
  f.bytes[offset]?.getD 0

/-- The bytes at `count` consecutive offsets. -/
def slice (f : Frame) (offset count : Nat) : List UInt8 :=
  (List.range count).map fun i => f.get (offset + i)

/-- Bytes stored one after the other from an offset on; what runs past the page is dropped. -/
def overlay (contents : Vector UInt8 pageSize) (offset : Nat) : List UInt8 → Vector UInt8 pageSize
  | [] => contents
  | b :: bs => overlay (contents.setIfInBounds offset b) (offset + 1) bs

/-- A fresh frame that begins with the given bytes and is zero behind them. -/
def ofBytes (bytes : List UInt8) : Frame :=
  ⟨overlay zeroBytes 0 bytes, 0⟩

end Frame

/-- The name of a frame in a store. -/
abbrev FrameId := Nat

/-- All frames of a machine, named by number. -/
structure FrameStore where
  /-- The frames that differ from `Frame.zeroed`, or did. -/
  frames : Std.ExtTreeMap FrameId Frame := ∅
  /-- The lowest number that was never given out. -/
  next : FrameId := 1

namespace FrameStore

/-- The frame a number names. -/
def frame (s : FrameStore) (id : FrameId) : Frame :=
  s.frames.getD id .zeroed

/-- Give out `count` consecutive fresh numbers and return the first. -/
def allocate (s : FrameStore) (count : Nat) : FrameId × FrameStore :=
  (s.next, { s with next := s.next + count })

/-- Replace the frame a number names. -/
def insert (s : FrameStore) (id : FrameId) (f : Frame) : FrameStore :=
  { s with frames := s.frames.insert id f }

/-- Change bytes of a frame from an offset on and leave its version alone. -/
def put (s : FrameStore) (id : FrameId) (offset : Nat) (bytes : List UInt8) : FrameStore :=
  let f := s.frame id
  s.insert id { f with bytes := Frame.overlay f.bytes offset bytes }

/-- Count one more store to a frame. -/
def bump (s : FrameStore) (id : FrameId) : FrameStore :=
  let f := s.frame id
  s.insert id { f with version := f.version + 1 }

/-- Store bytes in a frame: they change and the version counts the store. -/
def write (s : FrameStore) (id : FrameId) (offset : Nat) (bytes : List UInt8) : FrameStore :=
  (s.put id offset bytes).bump id

end FrameStore

end LongMode
