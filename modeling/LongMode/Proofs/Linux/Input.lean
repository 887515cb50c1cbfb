import LongMode.Proofs.Linux.Transfers

/-!
What is read from the standard input. Bytes are taken from it before they are stored, so that none
is lost if the store cannot be refused: the buffer was checked for as many bytes as were asked for,
and what is taken is not more (`Call.exists_ends_store`).

* `Caller.Reads` says all that a call to read can come to (`Call.run_read`).
* What calls bring into memory, one after the other, and then what is left of the input, are the
  input (`Caller.exists_delivered`).
-/

set_option autoImplicit false
set_option relaxedAutoImplicit false

namespace LongMode.Linux

namespace Caller

/-- What a call to read from a descriptor into a buffer comes to. -/
inductive Reads (c : Caller) (descriptor : Word) (buffer : Address) (count : Word) :
    Except Errno Word → Caller → Prop
  /-- The descriptor cannot be read: nothing changes. -/
  | notReadable (h : (c.kernel.descriptors.get? descriptor).filter (·.isReadable) = none) :
    Reads c descriptor buffer count (.error .ebadf) c
  /-- The buffer cannot be stored to: nothing changes. -/
  | noBuffer (o : OpenObject)
    (ho : (c.kernel.descriptors.get? descriptor).filter (·.isReadable) = some o)
    (h : ¬c.memory.Grants .write buffer (Call.quota count)) :
    Reads c descriptor buffer count (.error .efault) c
  /-- The first bytes of what is left of the standard input go to the buffer. -/
  | input (ho : c.kernel.descriptors.get? descriptor = some .input)
    (hbuffer : c.memory.Grants .write buffer (Call.quota count)) (bytes : List UInt8)
    (hbytes : bytes = c.kernel.input.take (Call.quota count)) (memory : Memory)
    (hmemory : c.memory.Receives buffer bytes memory) :
    Reads c descriptor buffer count (.ok (BitVec.ofNat 64 bytes.length))
      { c with kernel := { c.kernel with input := c.kernel.input.drop bytes.length }, memory }
  /-- Bytes of a file go to the buffer. -/
  | file (f f' : OpenFile) (ho : c.kernel.descriptors.get? descriptor = some (.file f))
    (hreadable : f.readable = true)
    (hbuffer : c.memory.Grants .write buffer (Call.quota count)) (bytes : List UInt8)
    (hread : f.read c.kernel.directory (Call.quota count) = .ok (bytes, f')) (memory : Memory)
    (hmemory : c.memory.Receives buffer bytes memory) :
    Reads c descriptor buffer count (.ok (BitVec.ofNat 64 bytes.length))
      { c with
        kernel := { c.kernel with
          descriptors := c.kernel.descriptors.set descriptor.toNat (.file f') }
        memory }
  /-- The file cannot be read: nothing changes. -/
  | failed (f : OpenFile) (ho : c.kernel.descriptors.get? descriptor = some (.file f))
    (hreadable : f.readable = true)
    (hbuffer : c.memory.Grants .write buffer (Call.quota count)) (e : FileError)
    (hread : f.read c.kernel.directory (Call.quota count) = .error e) :
    Reads c descriptor buffer count (.error e.errno) c

end Caller

namespace Call

variable {c : Caller}

/-- A file gives at most as many bytes as were asked for. -/
theorem length_le_of_read {f f' : OpenFile} {d : Directory} {count : Nat} {bytes : List UInt8}
    (h : f.read d count = .ok (bytes, f')) : bytes.length ≤ count := by
  rw [OpenFile.read] at h
  split at h
  next contents =>
    obtain ⟨rfl, -⟩ := Prod.mk.inj (Except.ok.inj h)
    exact List.length_take_le _ _
  next => cases h
  next => cases h

/-- Part of a buffer that can be stored to receives bytes. -/
theorem exists_ends_store (hm : c.memory.WellFormed) {a : Address} {length : Nat}
    (h : c.memory.Grants .write a length) {bytes : List UInt8} (hbytes : bytes.length ≤ length) :
    ∃ memory, Ends (store a bytes) c () { c with memory } ∧ c.memory.Receives a bytes memory := by
  have hcheck := hm.check_eq_ok_iff.mpr (h.mono hbytes)
  exact ⟨_, ends_store hcheck, Memory.receives_store hcheck⟩

/-! ### Taking bytes -/

variable {descriptor : Word} {count : Nat} {f f' : OpenFile} {bytes : List UInt8}

theorem ends_take_input (c : Caller) (descriptor : Word) (count : Nat) :
    Ends (take descriptor count .input) c (c.kernel.input.take count)
      { c with kernel := { c.kernel with input := c.kernel.input.drop count } } :=
  rfl

theorem ends_take_file (h : f.read c.kernel.directory count = .ok (bytes, f')) :
    Ends (take descriptor count (.file f)) c bytes
      { c with kernel := { c.kernel with
        descriptors := c.kernel.descriptors.set descriptor.toNat (.file f') } } := by
  rw [Ends, take, (ends_kernel c).run_bind, h]
  rfl

theorem run_take_of_error {e : FileError} (h : f.read c.kernel.directory count = .error e) :
    (take descriptor count (.file f)).run.run c = (.error e.errno, c) := by
  rw [take, (ends_kernel c).run_bind, h]
  rfl

/-- What was taken is what the rest is short of. -/
theorem drop_eq_drop_length_take (input : List UInt8) (count : Nat) :
    input.drop count = input.drop (input.take count).length := by
  rw [List.length_take, List.drop_eq_drop_iff]
  omega

theorem run_read (hm : c.memory.WellFormed) (descriptor : Word) (buffer : Address)
    (count : Word) :
    ∃ result c', (read descriptor buffer count).run.run c = (result, c') ∧
      c.Reads descriptor buffer count result c' := by
  have hsource := run_object_bind c descriptor (·.isReadable)
  change (readable descriptor).run.run c = _ at hsource
  cases ho : (c.kernel.descriptors.get? descriptor).filter (·.isReadable) with
  | none =>
    rw [ho] at hsource
    exact ⟨_, c, run_bind_of_error hsource, .notReadable ho⟩
  | some o =>
    rw [ho] at hsource
    have hends : Ends (readable descriptor) c o c := hsource
    rw [read, hends.run_bind]
    change ∃ result c', (do
      requireStorable buffer (quota count)
      let bytes ← take descriptor (quota count) o
      store buffer bytes
      return BitVec.ofNat 64 bytes.length : Call Word).run.run c = (result, c') ∧ _
    by_cases hbuffer : c.memory.Grants .write buffer (quota count)
    · rw [(ends_requireStorable (hm.check_eq_ok_iff.mpr hbuffer)).run_bind]
      rw [Option.filter_eq_some_iff] at ho
      -- the store that follows cannot be refused: what was taken fits the buffer
      cases o with
      | input =>
        have htake := ends_take_input c descriptor (quota count)
        obtain ⟨memory, hstore, hreceives⟩ := exists_ends_store
          (c := { c with kernel := { c.kernel with
            input := c.kernel.input.drop (quota count) } }) hm hbuffer
          (List.length_take_le _ c.kernel.input)
        rw [htake.run_bind, hstore.run_bind, drop_eq_drop_length_take]
        exact ⟨.ok _, _, rfl, .input ho.1 hbuffer _ rfl memory hreceives⟩
      | file f =>
        cases hread : f.read c.kernel.directory (quota count) with
        | error e =>
          rw [run_bind_of_error (run_take_of_error hread)]
          exact ⟨_, c, rfl, .failed f ho.1 ho.2 hbuffer e hread⟩
        | ok taken =>
          obtain ⟨bytes, f'⟩ := taken
          obtain ⟨memory, hstore, hreceives⟩ := exists_ends_store
            (c := { c with kernel := { c.kernel with
              descriptors := c.kernel.descriptors.set descriptor.toNat (.file f') } }) hm hbuffer
            (length_le_of_read hread)
          rw [(ends_take_file hread).run_bind, hstore.run_bind]
          exact ⟨.ok _, _, rfl, .file f f' ho.1 ho.2 hbuffer bytes hread memory hreceives⟩
      | output => exact absurd ho.2 (by decide)
      | errors => exact absurd ho.2 (by decide)
    · obtain ⟨fault, hfault⟩ := hm.exists_check_eq_error hbuffer
      rw [run_bind_of_error (run_requireStorable_of_error hfault)]
      exact ⟨_, c, rfl, .noBuffer o ho hbuffer⟩

end Call

/-! ### The input over time -/

/-- Only a call to read is about the standard input. -/
theorem Syscall.eq_read_of_part? {call : Syscall} (h : call.part? = some .input) :
    call = read := by
  cases call <;> first | rfl | cases h

namespace Caller

variable {c : Caller} {r : SyscallRequest} {bytes : List UInt8}

theorem call_read (hm : c.memory.WellFormed) (hr : r.syscall? = some .read) :
    ∃ result c', c.call r = (.ofWord result, c') ∧
      c.Reads (r.argument 0) (r.argument 1) (r.argument 2) result c' := by
  obtain ⟨result, c', hrun, hreads⟩ :=
    Call.run_read hm (r.argument 0) (r.argument 1) (r.argument 2)
  exact ⟨result, c', call_of_run hr hrun rfl, hreads⟩

/-- A call that is not one to read leaves the standard input alone. -/
theorem input_call (hr : r.syscall? ≠ some .read) (c : Caller) :
    (c.call r).2.kernel.input = c.kernel.input := by
  refine c.related_call (R := Agrees Kernel.input) r fun call hcall part hpart ↦ ?_
  cases part with
  | input =>
    rw [Syscall.eq_read_of_part? hpart] at hcall
    exact absurd hcall hr
  | output => exact fun _ _ _ ↦ rfl
  | heap => exact fun _ _ ↦ rfl

/-- A call reads from the standard input, is not refused, and brings bytes into memory: as many as
it answers with, to the buffer that was asked for. -/
structure Delivers (c : Caller) (r : SyscallRequest) (bytes : List UInt8) : Prop where
  /-- It is a call to read. -/
  call : r.syscall? = some .read
  /-- The descriptor refers to the standard input. -/
  descriptor : c.kernel.descriptors.get? (r.argument 0) = some .input
  /-- The bytes are not more than was asked for. -/
  length : bytes.length ≤ Call.quota (r.argument 2)
  /-- The answer is the number of bytes. -/
  answer : (c.call r).1 = .answer (.ok (BitVec.ofNat 64 bytes.length))
  /-- The buffer receives the bytes. -/
  memory : c.memory.Receives (r.argument 1) bytes (c.call r).2.memory

/-- A call brings into memory what it takes from the standard input. -/
theorem delivers_or_input_eq (hm : c.memory.WellFormed) (r : SyscallRequest) :
    (∃ bytes, c.Delivers r bytes ∧ bytes ++ (c.call r).2.kernel.input = c.kernel.input) ∨
    (∀ bytes, ¬c.Delivers r bytes) ∧ (c.call r).2.kernel.input = c.kernel.input := by
  by_cases hr : r.syscall? = some .read
  · obtain ⟨result, c', hcall, hreads⟩ := call_read hm hr
    rw [hcall]
    cases hreads with
    | notReadable h =>
      refine .inr ⟨fun bytes hdelivers ↦ ?_, rfl⟩
      rw [hdelivers.descriptor] at h
      exact absurd h (by decide)
    | noBuffer =>
      refine .inr ⟨fun bytes hdelivers ↦ ?_, rfl⟩
      have hanswer := hdelivers.answer
      rw [hcall] at hanswer
      cases hanswer
    | input ho hbuffer bytes hbytes memory hmemory =>
      refine .inl ⟨bytes, ⟨hr, ho, ?_, by rw [hcall]; rfl, by rw [hcall]; exact hmemory⟩, ?_⟩
      · rw [hbytes]
        exact List.length_take_le _ _
      · change bytes ++ c.kernel.input.drop bytes.length = c.kernel.input
        rw [hbytes, ← Call.drop_eq_drop_length_take, List.take_append_drop]
    | file f f' ho => exact .inr ⟨fun bytes h ↦ absurd (ho.symm.trans h.descriptor) nofun, rfl⟩
    | failed f ho => exact .inr ⟨fun bytes h ↦ absurd (ho.symm.trans h.descriptor) nofun, rfl⟩
  · exact .inr ⟨fun bytes hdelivers ↦ hr hdelivers.call, input_call hr c⟩

/-- The bytes that calls bring into memory, and then what is left of the standard input, are the
standard input. -/
theorem exists_delivered (hm : c.memory.WellFormed) (events : List Event) :
    ∃ delivered, c.Moved Delivers events delivered ∧
      delivered ++ (c.after events).kernel.input = c.kernel.input := by
  refine exists_moved (T := fun bytes k k' ↦ bytes ++ k'.input = k.input) (fun k ↦ rfl) ?_
    delivers_or_input_eq hm events
  intro bytes more k k' k'' hfirst hmore
  rw [List.append_assoc, hmore, hfirst]

/-- The answer to a read of the standard input is zero only if nothing was asked for or nothing is
left. -/
theorem input_eq_nil_of_call (hm : c.memory.WellFormed) (hr : r.syscall? = some .read)
    (hdescriptor : c.kernel.descriptors.get? (r.argument 0) = some .input)
    (hanswer : (c.call r).1 = .answer (.ok 0)) (hcount : r.argument 2 ≠ 0) :
    c.kernel.input = [] := by
  obtain ⟨result, c', hcall, hreads⟩ := call_read hm hr
  rw [hcall] at hanswer
  cases hreads with
  | notReadable => cases hanswer
  | noBuffer => cases hanswer
  | failed => cases hanswer
  | file f f' ho => cases ho.symm.trans hdescriptor
  | input ho hbuffer bytes hbytes =>
    injection hanswer with hword
    injection hword with hzero
    have hlength : bytes.length = min (Call.quota (r.argument 2)) c.kernel.input.length := by
      rw [hbytes, List.length_take]
    have hquota : 0 < Call.quota (r.argument 2) :=
      Nat.lt_min.mpr ⟨Nat.pos_of_ne_zero fun h ↦ hcount (BitVec.eq_of_toNat_eq h), by decide⟩
    have hlimit : Call.quota (r.argument 2) < 2 ^ 64 :=
      Nat.lt_of_le_of_lt (Nat.min_le_right _ _) (by decide)
    have hmod : bytes.length % 2 ^ 64 = 0 := by
      rw [← BitVec.toNat_ofNat, hzero]
      rfl
    rw [Nat.mod_eq_of_lt (by omega)] at hmod
    rw [← List.length_eq_zero_iff]
    omega

/-- A process has any standard input, descriptors and memory that a history can lead to, and then
anything happens in it: calls are made, threads store and take turns. The bytes that reads of the
standard input brought into memory, one read after the other, are a prefix of it; what is left is
the rest. At any time a read of the standard input delivers as many bytes as were asked for, but not
more than a transfer may have and than are left: the answer is their number, they go to the buffer
and nowhere else. If the descriptor cannot be read, or the buffer cannot be stored to, then nothing
is taken and nothing is stored. The answer is zero only if nothing was asked for or nothing was
left. -/
theorem input_after_events (windows : Nat → MapWindow) (history : List Action) (k : Nat)
    (kernel : Kernel) (thread : Thread) (events : List Event) :
    let begun : Caller := ⟨kernel, ((World.start windows).after history).memory k, thread⟩
    let c := begun.after events
    (∃ delivered, begun.Moved Delivers events delivered ∧
      delivered ++ c.kernel.input = kernel.input) ∧
    (∀ r, r.syscall? = some .read → ∃ result c', c.call r = (.ofWord result, c') ∧
      c.Reads (r.argument 0) (r.argument 1) (r.argument 2) result c') ∧
    (∀ r, r.syscall? = some .read → c.kernel.descriptors.get? (r.argument 0) = some .input →
      (c.call r).1 = .answer (.ok 0) → r.argument 2 ≠ 0 → c.kernel.input = []) := by
  intro begun c
  have hbegun : begun.memory.WellFormed := (World.wellFormed_after windows history).memory k
  have hm : c.memory.WellFormed := wellFormed_after hbegun events
  exact ⟨exists_delivered hbegun events, fun r hr ↦ call_read hm hr,
    fun r hr hdescriptor hanswer hcount ↦ input_eq_nil_of_call hm hr hdescriptor hanswer hcount⟩

end Caller

end LongMode.Linux
