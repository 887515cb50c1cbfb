import LongMode.Machine.Execute

/-!
Trace events. Every completed instruction is described by the registers it changed and the bytes it
stored, so that a run can be followed from its first registers and memory alone.
-/

set_option autoImplicit false
set_option relaxedAutoImplicit false

namespace LongMode

/-- The 64-bit parts of a register file that a trace speaks of. -/
inductive RegisterSlot where
  | general (index : Fin 16)
  | instructionPointer
  | flags
  | fsBase
  | gsBase
  | vectorLow (index : Fin 16)
  | vectorHigh (index : Fin 16)
  | vectorControl
  deriving DecidableEq, Repr

namespace RegisterSlot

/-- The name of a part in a report. -/
def name : RegisterSlot → String
  | general i => (Register.general .qword i).name.toLower
  | instructionPointer => "rip"
  | flags => "rflags"
  | fsBase => "fs_base"
  | gsBase => "gs_base"
  | vectorLow i => "xmm" ++ toString i.val ++ ".lo"
  | vectorHigh i => "xmm" ++ toString i.val ++ ".hi"
  | vectorControl => "mxcsr"

/-- All parts in the order of a report. -/
def all : List RegisterSlot :=
  (List.finRange 16).map general ++ [instructionPointer, flags, fsBase, gsBase]
    ++ (List.finRange 16).flatMap (fun i => [vectorLow i, vectorHigh i])
    ++ [vectorControl]

/-- The value of a part. Flags are seen as a program sees them. -/
def read (r : RegisterFile) : RegisterSlot → BitVec 64
  | general i => r.get i
  | instructionPointer => r.rip
  | flags => r.flags
  | fsBase => r.fsBase
  | gsBase => r.gsBase
  | vectorLow i => (r.vector i).setWidth 64
  | vectorHigh i => (r.vector i >>> 64).setWidth 64
  | vectorControl => r.mxcsr.setWidth 64

/-- Give a part a value. -/
def write (r : RegisterFile) (value : BitVec 64) : RegisterSlot → RegisterFile
  | general i => r.set i value
  | instructionPointer => { r with rip := value }
  | flags => { r with rflags := value }
  | fsBase => { r with fsBase := value }
  | gsBase => { r with gsBase := value }
  | vectorLow i => r.setVector i ((r.vector i >>> 64).setWidth 64 ++ value)
  | vectorHigh i => r.setVector i (value ++ (r.vector i).setWidth 64)
  | vectorControl => { r with mxcsr := value.setWidth 32 }

end RegisterSlot

/-- A change of a part of the registers. -/
structure RegisterChange where
  /-- The part. -/
  slot : RegisterSlot
  /-- Its value before. -/
  old : BitVec 64
  /-- Its value after. -/
  new : BitVec 64
  deriving DecidableEq, Repr

/-- The changes from one register file to another. -/
def RegisterFile.changes (before after : RegisterFile) : List RegisterChange :=
  RegisterSlot.all.filterMap fun slot =>
    let old := slot.read before
    let new := slot.read after
    if old = new then none else some ⟨slot, old, new⟩

/-- The description of one completed instruction. -/
structure TraceEvent where
  /-- The thread. -/
  tid : Nat
  /-- How many instructions the thread had completed before. -/
  sequence : Nat
  /-- The instruction. -/
  instruction : Instruction
  /-- The changes of registers. -/
  changes : List RegisterChange
  /-- The stores. -/
  writes : List MemoryWrite
  deriving DecidableEq, Repr

end LongMode
