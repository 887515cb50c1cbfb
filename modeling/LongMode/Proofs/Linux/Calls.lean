import LongMode.Linux.Syscall
import LongMode.Proofs.Memory.World
import LongMode.Proofs.Outcomes

/-!
What a call of the host may do to the caller, whether it fails or not. Most calls change registers,
memory, descriptors and files only, and for a relation that does not mind these (`Caller.Lenient`)
each call is gone through once: it holds between the callers before and after a call if it does not
mind changes of the part of the kernel that the call is about, either (`Caller.related_call`). One
such relation minds nothing that calls do (`Caller.Becomes`):

* A call may set the base of a segment, and changes nothing of the thread but its registers
  (`Caller.thread_call`). Whether a thread has ended, and why, is therefore not for calls to say,
  but for what follows them.
* It does to memory only what requests to an address space do as well: frames evolve, and memory
  stays well formed (`Caller.succeeds_call`).
-/

set_option autoImplicit false
set_option relaxedAutoImplicit false

namespace LongMode

namespace Linux

/-- What a call may make of its caller: other registers, and memory that succeeds that before. -/
structure Caller.Becomes (c c' : Caller) : Prop where
  thread : ∃ registers, c'.thread = { c.thread with registers }
  memory : c.memory.Yields c'.memory

instance Caller.isPreorder_becomes : IsPreorder Caller Caller.Becomes where
  refl c := ⟨⟨c.thread.registers, rfl⟩, refl_of Memory.Yields c.memory⟩
  trans c c' c'' h h' := by
    obtain ⟨registers, hthread⟩ := h.thread
    obtain ⟨registers', hthread'⟩ := h'.thread
    exact ⟨⟨registers', by rw [hthread', hthread]⟩, trans_of Memory.Yields h.memory h'.memory⟩

/-- A relation between the callers before and after a call that does not mind what most calls do. -/
class Caller.Lenient (R : Caller → Caller → Prop) : Prop extends IsPreorder Caller R where
  /-- The registers of the thread may change. -/
  registers (c : Caller) (registers : RegisterFile) :
    R c { c with thread := { c.thread with registers } }
  /-- Memory may be succeeded. -/
  memory {c : Caller} {memory : Memory} (h : c.memory.Yields memory) : R c { c with memory }
  /-- Descriptors and files may change. -/
  files (c : Caller) (descriptors : DescriptorTable) (directory : Directory) :
    R c { c with kernel := { c.kernel with descriptors, directory } }

/-- The parts of the kernel that only some calls change. -/
inductive KernelPart where
  /-- What is left of the standard input. -/
  | input
  /-- What was put out. -/
  | output
  /-- The extent of the heap. -/
  | heap

/-- The part of the kernel that a call may change, and that few other calls do. -/
def Syscall.part? : Syscall → Option KernelPart
  | read => some .input
  | write | writeGathered => some .output
  | moveBreak => some .heap
  | _ => none

/-- A relation does not mind changes of a part of the kernel. -/
def Caller.Allows (R : Caller → Caller → Prop) : KernelPart → Prop
  | .input => ∀ (c : Caller) (input : List UInt8),
    R c { c with kernel := { c.kernel with input } }
  | .output => ∀ (c : Caller) (output errors : OutputStream),
    R c { c with kernel := { c.kernel with output, errors } }
  | .heap => ∀ (c : Caller) (heap : Heap), R c { c with kernel := { c.kernel with heap } }

theorem Caller.becomes_kernel (c : Caller) (kernel : Kernel) : c.Becomes { c with kernel } :=
  ⟨⟨c.thread.registers, rfl⟩, refl_of Memory.Yields c.memory⟩

instance Caller.lenient_becomes : Caller.Lenient Caller.Becomes where
  registers c registers := ⟨⟨registers, rfl⟩, refl_of Memory.Yields c.memory⟩
  memory {c} _ h := ⟨⟨c.thread.registers, rfl⟩, h⟩
  files c _ _ := c.becomes_kernel _

theorem Caller.allows_becomes (part : KernelPart) : Caller.Allows Caller.Becomes part := by
  cases part with
  | input => exact fun c _ ↦ c.becomes_kernel _
  | output => exact fun c _ _ ↦ c.becomes_kernel _
  | heap => exact fun c _ ↦ c.becomes_kernel _

namespace Call

variable {R : Caller → Caller → Prop} [Caller.Lenient R] {α : Type} {s : Caller}

/-! ### Parts of calls -/

@[grind ←] theorem keeps_orFail {ε : Type} (cause : ε → Errno) (o : Except ε α) :
    Keeps R (orFail cause o) s := by
  cases o with
  | ok v => exact keeps_pure v
  | error e => exact keeps_throw _

@[grind ←] theorem keeps_kernel : Keeps R kernel s :=
  keeps_get.andThen fun _ _ ↦ keeps_pure _

theorem ends_kernel (c : Caller) : Ends kernel c c.kernel c := rfl

@[grind ←] theorem keeps_modifyRegisters (f : RegisterFile → RegisterFile) :
    Keeps R (modifyRegisters f) s :=
  keeps_modify (Caller.Lenient.registers s _)

@[grind ←] theorem keeps_modifyFiles {f : Kernel → Kernel}
    (h : f s.kernel = { s.kernel with
      descriptors := (f s.kernel).descriptors, directory := (f s.kernel).directory }) :
    Keeps R (modifyKernel f) s :=
  keeps_modify (h ▸ Caller.Lenient.files s _ _)

theorem ends_orFail_iff {ε : Type} {cause : ε → Errno} {o : Except ε α} {v : α} {t : Caller} :
    Ends (orFail cause o) s v t ↔ o = .ok v ∧ s = t := by
  cases o with
  | ok v' => rw [orFail, ends_pure_iff, Except.ok.injEq]
  | error e => simp [orFail, not_ends_throw]

@[grind ←] theorem keeps_load (a : Address) (count : Nat) : Keeps R (load a count) s := by
  unfold load
  grind

@[grind ←] theorem keeps_loadWord (a : Address) : Keeps R (loadWord a) s := by
  unfold loadWord
  grind

@[grind ←] theorem keeps_requireStorable (a : Address) (count : Nat) :
    Keeps R (requireStorable a count) s := by
  unfold requireStorable
  grind

@[grind ←] theorem keeps_object (descriptor : Word) : Keeps R (object descriptor) s := by
  unfold object
  grind

@[grind ←] theorem keeps_readable (descriptor : Word) : Keeps R (readable descriptor) s := by
  unfold readable
  grind

@[grind ←] theorem keeps_writable (descriptor : Word) : Keeps R (writable descriptor) s := by
  unfold writable
  grind

/-! ### Parts that change memory -/

theorem keeps_setMemory {memory : Memory} (h : s.memory.Yields memory) :
    Keeps R (modify fun c : Caller ↦ { c with memory } : Call Unit) s :=
  keeps_modify (Caller.Lenient.memory h)

@[grind ←] theorem keeps_store (a : Address) (bytes : List UInt8) :
    Keeps R (store a bytes) s := by
  refine keeps_get_bind_iff.mpr <| (keeps_orFail _ _).bind fun memory t hends ↦ ?_
  obtain ⟨hwrite, rfl⟩ := ends_orFail_iff.mp hends
  exact keeps_setMemory (Memory.stored_write hwrite).yields

theorem keeps_changePages {f : Memory → Except MapError Memory}
    (hf : ∀ m, f s.memory = .ok m → s.memory.Yields m) :
    Keeps R (changePages f) s := by
  refine keeps_get_bind_iff.mpr <| (keeps_orFail _ _).bind fun memory t hends ↦ ?_
  obtain ⟨hmemory, rfl⟩ := ends_orFail_iff.mp hends
  exact keeps_setMemory (hf memory hmemory)

theorem keeps_mapWith {f : Memory → Except MapError (Region × Memory)}
    (hf : ∀ region m, f s.memory = .ok (region, m) → s.memory.Yields m) :
    Keeps R (mapWith f) s := by
  refine keeps_get_bind_iff.mpr <| (keeps_orFail _ _).bind fun mapped t hends ↦ ?_
  obtain ⟨hmapped, rfl⟩ := ends_orFail_iff.mp hends
  exact (keeps_setMemory (hf mapped.1 mapped.2 hmapped)).andThen fun _ _ ↦ keeps_pure _

theorem keeps_discard (a : Address) (length : Nat) :
    Keeps R (changePages fun m ↦ (m.discard a length).map (·.2)) s :=
  keeps_changePages fun m h hm ↦ by
    obtain ⟨count, hdiscard⟩ := exists_ok_of_map_snd h
    exact Memory.succeeds_discard hm hdiscard

theorem frames_of_discard {a : Address} {length : Nat} {v : Unit} {t : Caller}
    (h : Ends (changePages fun m ↦ (m.discard a length).map (·.2)) s v t) :
    t.memory.frames = s.memory.frames := by
  obtain ⟨s', _, hget, h⟩ := ends_bind_iff.mp h
  obtain ⟨rfl, rfl⟩ := ends_get_iff.mp hget
  obtain ⟨memory, _, hends, h⟩ := ends_bind_iff.mp h
  obtain ⟨hmemory, rfl⟩ := ends_orFail_iff.mp hends
  obtain ⟨count, hdiscard⟩ := exists_ok_of_map_snd hmemory
  obtain ⟨range, _, rfl⟩ := Memory.discard_eq_ok hdiscard
  rw [← ends_modify_iff.mp h]

theorem keeps_protect (a : Address) (length : Nat) (p : Permissions) :
    Keeps R (changePages fun m ↦ m.protect a length p) s :=
  keeps_changePages fun _ h hm ↦ Memory.succeeds_protect hm h

/-! ### Descriptors -/

@[grind ←] theorem keeps_updateFile (descriptor : Word) (f : OpenFile) :
    Keeps R (updateFile descriptor f) s :=
  keeps_modifyFiles rfl

@[grind ←] theorem keeps_gather (table : Address) (count room : Nat) :
    Keeps R (gather table count room) s := by
  induction count generalizing s table room with
  | zero => exact keeps_pure _
  | succ count ih =>
    unfold gather
    grind

@[grind ←] theorem keeps_loadPath (a : Address) : Keeps R (loadPath a) s := by
  unfold loadPath
  grind

@[grind ←] theorem keeps_openInDirectory (r : Directory.OpenRequest) (path : String) :
    Keeps R (openInDirectory r path) s := by
  unfold openInDirectory
  grind

@[grind ←] theorem keeps_createForReading (path : String) (exclusive : Bool) :
    Keeps R (createForReading path exclusive) s := by
  unfold createForReading
  grind

@[grind ←] theorem keeps_openAt (directory : Word) (path : Address) (flags : Word) :
    Keeps R (openAt directory path flags) s := by
  refine (keeps_loadPath path).andThen fun path _ ↦ ?_
  extract_lets create exclusive openWith chooseMode
  have hopen (mode : Bool × Bool) (t : Caller) : Keeps R (openWith mode) t := by
    unfold openWith
    grind
  have hmode (t : Caller) : Keeps R (chooseMode ()) t := by
    unfold chooseMode
    clear_value openWith
    grind
  clear_value chooseMode
  grind

@[grind ←] theorem keeps_reposition (descriptor offset base : Word) :
    Keeps R (reposition descriptor offset base) s := by
  refine (keeps_object descriptor).andThen fun o t ↦ ?_
  cases o with
  | file f => exact keeps_kernel.andThen fun k t ↦ by grind
  | _ => exact keeps_throw _

@[grind ←] theorem keeps_close (descriptor : Word) : Keeps R (close descriptor) s := by
  unfold close
  grind

/-! ### Pages -/

@[grind ←] theorem keeps_freshBacking (length : Nat) (sharing : Sharing) :
    Keeps R (freshBacking length sharing) s := by
  cases sharing with
  | isPrivate => exact keeps_pure _
  | isShared =>
    refine keeps_get_bind_iff.mpr <| (keeps_orFail _ _).bind fun made t hends ↦ ?_
    obtain ⟨hmade, rfl⟩ := ends_orFail_iff.mp hends
    refine (keeps_setMemory fun hm ↦ ?_).andThen fun _ _ ↦ keeps_pure _
    exact Memory.succeeds_shareFrames hm hmade

/-- Frames that new pages are to share have been given out. -/
theorem run_le_of_freshBacking {length : Nat} {sharing : Sharing} {b : Backing} {t : Caller}
    (h : Ends (freshBacking length sharing) s b t) (run : SharedFrames) (hb : b = .shared run) :
    run.first + run.count ≤ t.memory.frames.next := by
  subst hb
  cases sharing with
  | isPrivate => exact nomatch (ends_pure_iff.mp h).1
  | isShared =>
    obtain ⟨s', _, hget, h⟩ := ends_bind_iff.mp h
    obtain ⟨rfl, rfl⟩ := ends_get_iff.mp hget
    obtain ⟨⟨run', memory⟩, _, hends, h⟩ := ends_bind_iff.mp h
    obtain ⟨hmade, rfl⟩ := ends_orFail_iff.mp hends
    obtain ⟨_, _, hset, h⟩ := ends_bind_iff.mp h
    rw [ends_modify_iff] at hset
    obtain ⟨hrun, rfl⟩ := ends_pure_iff.mp h
    obtain rfl := Backing.shared.inj hrun
    rw [← hset]
    exact Memory.run_le_of_shareFrames hmade

/-- A run of frames that was given out stays so, whatever is done before it is mapped. -/
theorem keeps_placePages (a : Address) (length : Nat) (p : Permissions) {b : Backing}
    (placement : Placement)
    (hrun : ∀ run, b = .shared run → run.first + run.count ≤ s.memory.frames.next) :
    Keeps R (placePages a length p b placement) s := by
  have hmap {u : Caller} (hle : s.memory.frames.next ≤ u.memory.frames.next) :
      Keeps R (mapWith fun m ↦ m.map a length p b) u :=
    keeps_mapWith fun _ _ h hu ↦ Memory.succeeds_map hu h fun run hb ↦
      Nat.le_trans (hrun run hb) hle
  have hmapAnywhere : Keeps R (mapWith fun m ↦ m.mapAnywhere length p b) s :=
    keeps_mapWith fun _ _ h hu ↦ Memory.succeeds_mapAnywhere hu h hrun
  unfold placePages
  extract_lets map place
  have hplace : Keeps R (place ()) s := by
    unfold place
    cases placement with
    | vacant =>
      refine keeps_get_bind_iff.mpr ?_
      split
      · exact hmap (Nat.le_refl _)
      · exact keeps_throw _
    | replace =>
      refine (keeps_discard a length).bind fun _ u hdiscard ↦ hmap ?_
      exact Nat.le_of_eq (congrArg FrameStore.next (frames_of_discard hdiscard)).symm
    | hint =>
      refine keeps_get_bind_iff.mpr ?_
      split
      · exact hmap (Nat.le_refl _)
      · exact hmapAnywhere
  clear_value place
  grind

@[grind ←] theorem keeps_mapPages (a : Address) (length protection flags file : Word) :
    Keeps R (mapPages a length protection flags file) s := by
  unfold mapPages
  extract_lets rounded shared fileless sized
  have hshared : Keeps R (shared ()) s := by
    unfold shared
    split
    · refine (keeps_freshBacking _ _).bind fun backing t hends ↦ ?_
      exact keeps_placePages _ _ _ _ (run_le_of_freshBacking hends)
    · exact keeps_throw _
  clear_value shared
  grind

@[grind ←] theorem keeps_unmapPages (a : Address) (length : Word) :
    Keeps R (unmapPages a length) s := by
  have hdiscard (t : Caller) := keeps_discard (R := R) (s := t) a length.toNat
  unfold unmapPages
  grind

@[grind ←] theorem keeps_protectPages (a : Address) (length protection : Word) :
    Keeps R (protectPages a length protection) s := by
  have hprotect (t : Caller) :=
    keeps_protect (R := R) (s := t) a length.toNat (.ofProtection protection.toNat)
  unfold protectPages
  grind

/-! ### Identity and signals -/

@[grind ←] theorem keeps_describeSystem (buffer : Address) :
    Keeps R (describeSystem buffer) s := by
  unfold describeSystem
  grind

@[grind ←] theorem keeps_segmentBase (code : Word) (a : Address) :
    Keeps R (segmentBase code a) s := by
  unfold segmentBase storeWord
  grind

@[grind ←] theorem keeps_signal (process number : Word) :
    Keeps R (signal process number) s := by
  unfold signal
  grind

@[grind ←] theorem keeps_requirePositive (w : Word) :
    Keeps R (requirePositive w) s := by
  unfold requirePositive
  grind

/-! ### Calls that change a part of the kernel -/

@[grind ←] theorem keeps_take (hinput : Caller.Allows R .input) (descriptor : Word) (count : Nat)
    (o : OpenObject) : Keeps R (take descriptor count o) s := by
  cases o with
  | input =>
    exact keeps_kernel.andThen fun _ t ↦ (keeps_modify (hinput t _)).andThen fun _ _ ↦ keeps_pure _
  | output => exact keeps_throw _
  | errors => exact keeps_throw _
  | file f =>
    unfold take
    grind

@[grind ←] theorem keeps_read (hinput : Caller.Allows R .input) (descriptor : Word)
    (buffer : Address) (count : Word) : Keeps R (read descriptor buffer count) s := by
  unfold read
  grind

@[grind ←] theorem keeps_emit (houtput : Caller.Allows R .output) (descriptor : Word)
    (bytes : List UInt8) (o : OpenObject) : Keeps R (emit descriptor bytes o) s := by
  cases o with
  | input => exact keeps_throw _
  | output => exact (keeps_modify (houtput s _ _)).andThen fun _ _ ↦ keeps_pure _
  | errors => exact (keeps_modify (houtput s _ _)).andThen fun _ _ ↦ keeps_pure _
  | file f =>
    unfold emit
    grind

@[grind ←] theorem keeps_write (houtput : Caller.Allows R .output) (descriptor : Word)
    (buffer : Address) (count : Word) : Keeps R (write descriptor buffer count) s := by
  unfold write
  grind

@[grind ←] theorem keeps_writeGathered (houtput : Caller.Allows R .output) (descriptor : Word)
    (table : Address) (count : Word) : Keeps R (writeGathered descriptor table count) s := by
  unfold writeGathered
  grind

@[grind ←] theorem keeps_moveBreak (hheap : Caller.Allows R .heap) (a : Address) :
    Keeps R (moveBreak a) s := by
  refine (keeps_kernel (R := R)).andThen fun k t ↦ ?_
  extract_lets heap accept
  have haccept (t : Caller) : Keeps R accept t :=
    (keeps_modify (hheap t _)).andThen fun _ _ ↦ keeps_pure _
  clear_value accept
  split
  · exact keeps_pure _
  split
  · split
    · refine keeps_get_bind_iff.mpr ?_
      split
      · rename_i hmap
        have hyields : t.memory.Yields _ := fun hm ↦ Memory.succeeds_map hm hmap nofun
        exact (keeps_setMemory hyields).andThen fun _ t ↦ haccept t
      · exact keeps_pure _
    split
    · refine keeps_get_bind_iff.mpr ?_
      split
      · rename_i hdiscard
        have hyields : t.memory.Yields _ := fun hm ↦ Memory.succeeds_discard hm hdiscard
        exact (keeps_setMemory hyields).andThen fun _ t ↦ haccept t
      · exact haccept t
    · exact haccept t
  · exact keeps_pure _

end Call

/-- A call does to its caller what a relation does not mind, if that includes the part of the
kernel that the call is about. -/
theorem Syscall.keeps_perform {R : Caller → Caller → Prop} [Caller.Lenient R] (call : Syscall)
    (h : ∀ part ∈ call.part?, Caller.Allows R part) (a : Vector Word 6) {s : Caller} :
    Keeps R (call.perform a) s := by
  simp only [Option.mem_def] at h
  cases call with
  | read =>
    have hinput := h .input rfl
    unfold perform
    grind
  | write =>
    have houtput := h .output rfl
    unfold perform
    grind
  | writeGathered =>
    have houtput := h .output rfl
    unfold perform
    grind
  | moveBreak =>
    have hheap := h .heap rfl
    unfold perform
    grind
  | _ =>
    unfold perform
    grind

end Linux

/-- The call that a request names, if it is known. -/
def SyscallRequest.syscall? (r : SyscallRequest) : Option Linux.Syscall :=
  Linux.Syscall.ofNumber? r.number.toNat

/-- An argument of a request; there are six, counted from 0. -/
def SyscallRequest.argument (r : SyscallRequest) (i : Nat) : Linux.Word :=
  r.arguments[i]?.getD 0

namespace Linux.Caller

/-- A request does to its caller what the call that it names does, and nothing if that is not
known. -/
theorem related_call {R : Caller → Caller → Prop} [Caller.Lenient R] (c : Caller)
    (r : SyscallRequest)
    (h : ∀ call ∈ r.syscall?, ∀ part ∈ call.part?, Caller.Allows R part) : R c (c.call r).2 := by
  have hkeeps : Keeps R (Call.ofRequest r) c := by
    rw [Call.ofRequest]
    split
    next call hcall => exact call.keeps_perform (h call hcall) _
    next => exact keeps_throw _
  exact hkeeps

/-- What a call makes of its caller. -/
theorem becomes_call (c : Caller) (r : SyscallRequest) : c.Becomes (c.call r).2 :=
  c.related_call r fun _ _ part _ ↦ allows_becomes part

/-- A call leaves its thread alone but for the registers. -/
theorem thread_call (c : Caller) (r : SyscallRequest) :
    ∃ registers, (c.call r).2.thread = { c.thread with registers } :=
  (c.becomes_call r).thread

/-- After a call memory is well formed if it was before, and frames have evolved. -/
theorem succeeds_call {c : Caller} (hc : c.memory.WellFormed) (r : SyscallRequest) :
    c.memory.Succeeds (c.call r).2.memory :=
  (c.becomes_call r).memory hc

end Linux.Caller

end LongMode
