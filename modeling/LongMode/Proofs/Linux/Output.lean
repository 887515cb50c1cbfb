import LongMode.Proofs.Linux.Transfers

/-!
What is written to the standard output and the standard error.

* The bytes of a call are fetched before any of them is put out. Those that a table of buffers names
  are the bytes of the buffers one after the other, cut off where there is no more room
  (`Memory.gathered`), though they are fetched buffer by buffer (`Call.fetches_gather`).
* `Caller.Puts` says all that a call to put bytes out can come to (`Call.run_puts`).
* What a stream has is what calls put out on it, one after the other (`Caller.exists_emitted`).
-/

set_option autoImplicit false
set_option relaxedAutoImplicit false

namespace LongMode

namespace Memory

/-- The buffers that the entries of a table name: the word at an entry is the address, and the one
behind it the length. -/
def buffers (m : Memory) : (table : Address) → (count : Nat) → List (Address × Nat)
  | _, 0 => []
  | table, count + 1 =>
    (m.word table 8, (m.word (table + 8) 8).toNat) :: m.buffers (table + 16) count

/-- The addresses of the bytes in the buffers, as far as there is room for them. -/
def gathered (m : Memory) (table : Address) (count room : Nat) : List Address :=
  ((m.buffers table count).flatMap fun b ↦ addresses b.1 b.2).take room

/-- The bytes of the first buffer come first, as far as there is room, and those of the others in
what room is left. -/
theorem gathered_succ (m : Memory) (table : Address) (count room : Nat) :
    m.gathered table (count + 1) room =
      addresses (m.word table 8) (min (m.word (table + 8) 8).toNat room) ++
        m.gathered (table + 16) count (room - min (m.word (table + 8) 8).toNat room) := by
  have hroom (length : Nat) : room - length = room - min length room := by omega
  rw [gathered, buffers, List.flatMap_cons, List.take_append, take_addresses, length_addresses,
    hroom, gathered]

end Memory

namespace Linux

namespace Call

variable {c : Caller}

/-- The bytes of the buffers are gathered, if these and the entries that name them can be read. -/
theorem fetches_gather (hm : c.memory.WellFormed) (table : Address) (count room : Nat) :
    Fetches (gather table count room) c
      (addresses table (16 * count) ++ c.memory.gathered table count room)
      ((c.memory.gathered table count room).map c.memory.byte) := by
  induction count generalizing table room with
  | zero =>
    have hnothing : c.memory.gathered table 0 room = [] := List.take_nil
    rw [hnothing]
    exact fetches_pure c []
  | succ count ih =>
    have hentry : addresses table (16 * (count + 1)) =
        addresses table 8 ++ (addresses (table + 8) 8 ++ addresses (table + 16) (16 * count)) := by
      rw [Nat.mul_succ, Nat.add_comm, addresses_add table 16, addresses_add table 8 8,
        List.append_assoc]
      rfl
    rw [Memory.gathered_succ, List.map_append, hentry]
    generalize hbuffer :
      addresses (c.memory.word table 8) (min (c.memory.word (table + 8) 8).toNat room) = buffer
    have hroom : room - min (c.memory.word (table + 8) 8).toNat room =
        room - (buffer.map c.memory.byte).length := by
      rw [List.length_map, ← hbuffer, length_addresses]
    have hload := hbuffer ▸ fetches_load hm (c.memory.word table 8)
      (min (c.memory.word (table + 8) 8).toNat room)
    rw [hroom]
    refine Fetches.congr ((fetches_loadWord hm table).bind <| (fetches_loadWord hm (table + 8)).bind
      <| hload.bind <| (ih (table + 16) _).bind <| fetches_pure c _) fun a ↦ ?_
    grind

end Call

/-! ### Putting bytes out -/

/-- What a call to put bytes out on a descriptor comes to, if it needs the bytes at some addresses
and puts out those at some of them. -/
inductive Caller.Puts (c : Caller) (descriptor : Word) (needed places : List Address) :
    Except Errno Word → Caller → Prop
  /-- The descriptor cannot be written: nothing changes. -/
  | notWritable (h : (c.kernel.descriptors.get? descriptor).filter (·.isWritable) = none) :
    Puts c descriptor needed places (.error .ebadf) c
  /-- One of the bytes cannot be read: nothing changes. -/
  | unreadable (o : OpenObject)
    (ho : (c.kernel.descriptors.get? descriptor).filter (·.isWritable) = some o)
    (h : ∃ a ∈ needed, ¬c.memory.permits .read a = true) :
    Puts c descriptor needed places (.error .efault) c
  /-- The bytes go to the standard output. -/
  | output (ho : c.kernel.descriptors.get? descriptor = some .output)
    (h : ∀ a ∈ needed, c.memory.permits .read a = true) :
    Puts c descriptor needed places (.ok (BitVec.ofNat 64 places.length))
      { c with kernel := { c.kernel with
        output := c.kernel.output.append (places.map c.memory.byte) } }
  /-- The bytes go to the standard error. -/
  | errors (ho : c.kernel.descriptors.get? descriptor = some .errors)
    (h : ∀ a ∈ needed, c.memory.permits .read a = true) :
    Puts c descriptor needed places (.ok (BitVec.ofNat 64 places.length))
      { c with kernel := { c.kernel with
        errors := c.kernel.errors.append (places.map c.memory.byte) } }
  /-- The bytes go to a file. -/
  | file (f f' : OpenFile) (directory : Directory)
    (ho : c.kernel.descriptors.get? descriptor = some (.file f)) (hwritable : f.writable = true)
    (h : ∀ a ∈ needed, c.memory.permits .read a = true)
    (hwrite : f.write c.kernel.directory (places.map c.memory.byte) = .ok (f', directory)) :
    Puts c descriptor needed places (.ok (BitVec.ofNat 64 places.length))
      { c with kernel := { c.kernel with
        directory, descriptors := c.kernel.descriptors.set descriptor.toNat (.file f') } }
  /-- The file does not take the bytes: nothing changes. -/
  | failed (f : OpenFile) (ho : c.kernel.descriptors.get? descriptor = some (.file f))
    (hwritable : f.writable = true) (h : ∀ a ∈ needed, c.memory.permits .read a = true)
    (e : FileError)
    (hwrite : f.write c.kernel.directory (places.map c.memory.byte) = .error e) :
    Puts c descriptor needed places (.error .eio) c

namespace Call

variable {c : Caller} {descriptor : Word} {table : Address} {count : Word}
  {needed places : List Address}

/-- Bytes that are fetched and then put out. -/
theorem run_puts {x : Call (List UInt8)}
    (hx : Fetches x c needed (places.map c.memory.byte)) :
    ∃ result c', (do
        let sink ← writable descriptor
        let bytes ← x
        emit descriptor bytes sink : Call Word).run.run c = (result, c') ∧
      c.Puts descriptor needed places result c' := by
  have hsink := run_object_bind c descriptor (·.isWritable)
  change (writable descriptor).run.run c = _ at hsink
  cases ho : (c.kernel.descriptors.get? descriptor).filter (·.isWritable) with
  | none =>
    rw [ho] at hsink
    exact ⟨_, c, run_bind_of_error hsink, .notWritable ho⟩
  | some o =>
    rw [ho] at hsink
    have hends : Ends (writable descriptor) c o c := hsink
    rw [hends.run_bind]
    by_cases h : ∀ a ∈ needed, c.memory.permits .read a = true
    · have hlength : (places.map c.memory.byte).length = places.length := List.length_map _
      rw [(hx.ends h).run_bind]
      rw [Option.filter_eq_some_iff] at ho
      cases o with
      | input => exact absurd ho.2 (by decide)
      | output =>
        refine ⟨_, _, ?_, .output ho.1 h⟩
        rw [← hlength]
        rfl
      | errors =>
        refine ⟨_, _, ?_, .errors ho.1 h⟩
        rw [← hlength]
        rfl
      | file f =>
        rw [emit, (ends_kernel c).run_bind]
        cases hwrite : f.write c.kernel.directory (places.map c.memory.byte) with
        | error e => exact ⟨_, c, rfl, .failed f ho.1 ho.2 h e hwrite⟩
        | ok written =>
          refine ⟨_, _, ?_, .file f written.1 written.2 ho.1 ho.2 h hwrite⟩
          rw [← hlength]
          rfl
    · simp only [not_forall, exists_prop] at h
      rw [run_bind_of_error (hx.fails h)]
      exact ⟨_, c, rfl, .unreadable o ho h⟩

theorem run_write (hm : c.memory.WellFormed) (descriptor : Word) (buffer : Address)
    (count : Word) :
    ∃ result c', (write descriptor buffer count).run.run c = (result, c') ∧
      c.Puts descriptor (addresses buffer (quota count)) (addresses buffer (quota count))
        result c' :=
  run_puts (fetches_load hm buffer (quota count))

theorem run_writeGathered_of_lt (h : maxBuffers < count.toNat) :
    (writeGathered descriptor table count).run.run c = (.error .einval, c) := by
  rw [writeGathered, if_pos h]
  rfl

theorem run_writeGathered (hm : c.memory.WellFormed) (descriptor : Word) (table : Address)
    (count : Word) (h : count.toNat ≤ maxBuffers) :
    ∃ result c', (writeGathered descriptor table count).run.run c = (result, c') ∧
      c.Puts descriptor
        (addresses table (16 * count.toNat) ++ c.memory.gathered table count.toNat maxTransfer)
        (c.memory.gathered table count.toNat maxTransfer) result c' := by
  rw [writeGathered, if_neg (Nat.not_lt.mpr h)]
  exact run_puts (fetches_gather hm table count.toNat maxTransfer)

end Call

/-! ### The output over time -/

/-- The stream that an object stands for, if it is one to write to. -/
def Kernel.stream (k : Kernel) : OpenObject → OutputStream
  | .output => k.output
  | .errors => k.errors
  | _ => .discarded

namespace OutputStream

@[simp] theorem append_nil (stream : OutputStream) : stream.append [] = stream := by
  cases stream with
  | captured bytes => exact congrArg captured (List.append_nil bytes)
  | discarded => rfl

theorem append_append (stream : OutputStream) (bytes more : List UInt8) :
    (stream.append bytes).append more = stream.append (bytes ++ more) := by
  cases stream with
  | captured before => exact congrArg captured (List.append_assoc before bytes more)
  | discarded => rfl

end OutputStream

/-- Two calls are about the output. -/
theorem Syscall.eq_of_part?_output {call : Syscall} (h : call.part? = some .output) :
    call = write ∨ call = writeGathered := by
  cases call <;> first | exact .inl rfl | exact .inr rfl | cases h

namespace Caller

instance lenient_agrees_stream (o : OpenObject) : Lenient (Agrees fun k ↦ k.stream o) where
  registers _ _ := rfl
  memory _ := rfl
  files _ _ _ := by cases o <;> rfl

/-- The addresses of the bytes that a call is to put out, if it is one to do that. -/
def payload? (c : Caller) (r : SyscallRequest) : Option (List Address) :=
  match r.syscall? with
  | some .write => some (addresses (r.argument 1) (Call.quota (r.argument 2)))
  | some .writeGathered =>
    some (c.memory.gathered (r.argument 1) (r.argument 2).toNat Call.maxTransfer)
  | _ => none

/-- A call puts bytes out on an object, and is not refused. -/
structure Emits (o : OpenObject) (c : Caller) (r : SyscallRequest) (bytes : List UInt8) :
    Prop where
  /-- The descriptor refers to the object. -/
  descriptor : c.kernel.descriptors.get? (r.argument 0) = some o
  /-- It is a call to put bytes out, and these are the bytes. -/
  payload : ∃ places, c.payload? r = some places ∧ bytes = places.map c.memory.byte
  /-- The answer is the number of bytes. -/
  answer : (c.call r).1 = .answer (.ok (BitVec.ofNat 64 bytes.length))

variable {c : Caller} {r : SyscallRequest}

theorem call_write (hm : c.memory.WellFormed) (hr : r.syscall? = some .write) :
    ∃ result c', c.call r = (.ofWord result, c') ∧
      c.Puts (r.argument 0) (addresses (r.argument 1) (Call.quota (r.argument 2)))
        (addresses (r.argument 1) (Call.quota (r.argument 2))) result c' := by
  obtain ⟨result, c', hrun, hputs⟩ :=
    Call.run_write hm (r.argument 0) (r.argument 1) (r.argument 2)
  exact ⟨result, c', call_of_run hr hrun rfl, hputs⟩

theorem call_writeGathered_of_lt (hr : r.syscall? = some .writeGathered)
    (h : Call.maxBuffers < (r.argument 2).toNat) (c : Caller) :
    c.call r = (.ofWord (.error .einval), c) :=
  call_of_run hr (Call.run_writeGathered_of_lt h) rfl

theorem call_writeGathered (hm : c.memory.WellFormed) (hr : r.syscall? = some .writeGathered)
    (h : (r.argument 2).toNat ≤ Call.maxBuffers) :
    ∃ result c', c.call r = (.ofWord result, c') ∧
      c.Puts (r.argument 0)
        (addresses (r.argument 1) (16 * (r.argument 2).toNat) ++
          c.memory.gathered (r.argument 1) (r.argument 2).toNat Call.maxTransfer)
        (c.memory.gathered (r.argument 1) (r.argument 2).toNat Call.maxTransfer) result c' := by
  obtain ⟨result, c', hrun, hputs⟩ := Call.run_writeGathered hm (r.argument 0) (r.argument 1) _ h
  exact ⟨result, c', call_of_run hr hrun rfl, hputs⟩

/-- A call that is refused puts nothing out. -/
theorem not_emits_of_error {e : Errno} (h : (c.call r).1 = .ofWord (.error e)) (o : OpenObject)
    (bytes : List UInt8) : ¬Emits o c r bytes := by
  intro hemits
  have hanswer := hemits.answer
  rw [h] at hanswer
  cases hanswer

/-- What a call puts out on an object is what is appended to its stream. -/
theorem emits_or_stream_eq_of_puts {needed places : List Address} {result : Except Errno Word}
    {c' : Caller} (hpayload : c.payload? r = some places) (hcall : c.call r = (.ofWord result, c'))
    (hputs : c.Puts (r.argument 0) needed places result c') (o : OpenObject) :
    (∃ bytes, Emits o c r bytes ∧ c'.kernel.stream o = (c.kernel.stream o).append bytes) ∨
    (∀ bytes, ¬Emits o c r bytes) ∧ c'.kernel.stream o = c.kernel.stream o := by
  have hanswer : (c.call r).1 = .ofWord result := by rw [hcall]
  have hrefused {e : Errno} (hresult : result = .error e) : ∀ bytes, ¬Emits o c r bytes :=
    not_emits_of_error (hresult ▸ hanswer) o
  -- the stream of the object that the descriptor refers to gets the bytes, the others stay
  have hdone {o' : OpenObject} (hobject : c.kernel.descriptors.get? (r.argument 0) = some o')
      (hresult : result = .ok (BitVec.ofNat 64 places.length))
      (hsame : c'.kernel.stream o' = (c.kernel.stream o').append (places.map c.memory.byte))
      (hothers : o' ≠ o → c'.kernel.stream o = c.kernel.stream o) :
      (∃ bytes, Emits o c r bytes ∧ c'.kernel.stream o = (c.kernel.stream o).append bytes) ∨
      (∀ bytes, ¬Emits o c r bytes) ∧ c'.kernel.stream o = c.kernel.stream o := by
    by_cases ho : o' = o
    · subst ho
      refine .inl ⟨_, ⟨hobject, ⟨places, hpayload, rfl⟩, ?_⟩, hsame⟩
      rw [hanswer, hresult, List.length_map]
      rfl
    · refine .inr ⟨fun bytes hemits ↦ ho ?_, hothers ho⟩
      exact Option.some.inj (hobject.symm.trans hemits.descriptor)
  cases hputs with
  | notWritable => exact .inr ⟨hrefused rfl, rfl⟩
  | unreadable => exact .inr ⟨hrefused rfl, rfl⟩
  | failed => exact .inr ⟨hrefused rfl, rfl⟩
  | output hobject =>
    refine hdone hobject rfl rfl fun ho ↦ ?_
    cases o <;> first | rfl | exact absurd rfl ho
  | errors hobject =>
    refine hdone hobject rfl rfl fun ho ↦ ?_
    cases o <;> first | rfl | exact absurd rfl ho
  | file f f' directory hobject =>
    refine hdone hobject rfl rfl fun ho ↦ ?_
    cases o <;> rfl

/-- A call that is not one to put bytes out leaves the streams alone. -/
theorem stream_call (hr : c.payload? r = none) (o : OpenObject) :
    (c.call r).2.kernel.stream o = c.kernel.stream o := by
  refine c.related_call (R := Agrees fun k ↦ k.stream o) r fun call hcall part hpart ↦ ?_
  have hobject (k : Kernel) (input : List UInt8) (heap : Heap) :
      Kernel.stream { k with input, heap } o = k.stream o := by
    cases o <;> rfl
  cases part with
  | input => exact fun c input ↦ hobject c.kernel input c.kernel.heap
  | heap => exact fun c heap ↦ hobject c.kernel c.kernel.input heap
  | output =>
    rw [payload?, Option.mem_def.mp hcall] at hr
    rcases Syscall.eq_of_part?_output hpart with rfl | rfl <;> cases hr

theorem emits_or_stream_eq (o : OpenObject) (hm : c.memory.WellFormed) (r : SyscallRequest) :
    (∃ bytes, Emits o c r bytes ∧
      (c.call r).2.kernel.stream o = (c.kernel.stream o).append bytes) ∨
    (∀ bytes, ¬Emits o c r bytes) ∧ (c.call r).2.kernel.stream o = c.kernel.stream o := by
  by_cases hwrite : r.syscall? = some .write
  · obtain ⟨result, c', hcall, hputs⟩ := call_write hm hwrite
    have hpayload : c.payload? r = some (addresses (r.argument 1) (Call.quota (r.argument 2))) := by
      rw [payload?, hwrite]
    rw [hcall]
    exact emits_or_stream_eq_of_puts hpayload hcall hputs o
  by_cases hgathered : r.syscall? = some .writeGathered
  · by_cases hcount : (r.argument 2).toNat ≤ Call.maxBuffers
    · obtain ⟨result, c', hcall, hputs⟩ := call_writeGathered hm hgathered hcount
      have hpayload : c.payload? r = some
          (c.memory.gathered (r.argument 1) (r.argument 2).toNat Call.maxTransfer) := by
        rw [payload?, hgathered]
      rw [hcall]
      exact emits_or_stream_eq_of_puts hpayload hcall hputs o
    · have hcall := call_writeGathered_of_lt hgathered (Nat.lt_of_not_le hcount) c
      refine .inr ⟨not_emits_of_error (by rw [hcall]) o, ?_⟩
      rw [hcall]
  · have hpayload : c.payload? r = none := by
      rw [payload?]
      split
      next h => exact absurd h hwrite
      next h => exact absurd h hgathered
      next => rfl
    refine .inr ⟨fun bytes hemits ↦ ?_, stream_call hpayload o⟩
    obtain ⟨places, hplaces, -⟩ := hemits.payload
    cases hpayload.symm.trans hplaces

/-- A stream has, behind what it had at first, what calls put out on its object. -/
theorem exists_emitted (o : OpenObject) (hm : c.memory.WellFormed) (events : List Event) :
    ∃ bytes, c.Moved (Emits o) events bytes ∧
      (c.after events).kernel.stream o = (c.kernel.stream o).append bytes := by
  refine exists_moved (T := fun bytes k k' ↦ k'.stream o = (k.stream o).append bytes)
    (fun k ↦ (OutputStream.append_nil _).symm) ?_ ?_ hm events
  · intro bytes more k k' k'' hfirst hmore
    rw [hmore, hfirst, OutputStream.append_append]
  · intro c hm r
    rw [OutputStream.append_nil]
    exact emits_or_stream_eq o hm r

/-- A process begins with streams that are kept and have nothing, any descriptors, and any memory
that a history can lead to; then anything happens in it. What the standard output has is what calls
put out on descriptors that refer to it, one call after the other, and so it is with the standard
error. At any time a call to write puts out the bytes of its buffer, as many as a transfer may have,
and a call to write several buffers those of the buffers one after the other, as many as a transfer
may have: all of them or none. The answer is their number. None are put out if there are too many
buffers, if the descriptor cannot be written, or if one of the bytes cannot be read, be it one to
put out or one of the entries that name the buffers. -/
theorem output_after_events (windows : Nat → MapWindow) (history : List Action) (k : Nat)
    (kernel : Kernel) (thread : Thread) (events : List Event) :
    let begun : Caller := ⟨{ kernel with output := .captured [], errors := .captured [] },
      ((World.start windows).after history).memory k, thread⟩
    let c := begun.after events
    (∃ bytes, begun.Moved (Emits .output) events bytes ∧ c.kernel.output = .captured bytes) ∧
    (∃ bytes, begun.Moved (Emits .errors) events bytes ∧ c.kernel.errors = .captured bytes) ∧
    (∀ r, r.syscall? = some .write → ∃ result c', c.call r = (.ofWord result, c') ∧
      let places := addresses (r.argument 1) (Call.quota (r.argument 2))
      c.Puts (r.argument 0) places places result c') ∧
    (∀ r, r.syscall? = some .writeGathered → ∃ result c', c.call r = (.ofWord result, c') ∧
      let count := (r.argument 2).toNat
      let places := c.memory.gathered (r.argument 1) count Call.maxTransfer
      if Call.maxBuffers < count then result = .error .einval ∧ c' = c
      else c.Puts (r.argument 0) (addresses (r.argument 1) (16 * count) ++ places) places
        result c') := by
  intro begun c
  have hbegun : begun.memory.WellFormed := (World.wellFormed_after windows history).memory k
  have hm : c.memory.WellFormed := wellFormed_after hbegun events
  refine ⟨exists_emitted .output hbegun events, exists_emitted .errors hbegun events,
    fun r hr ↦ call_write hm hr, fun r hr ↦ ?_⟩
  by_cases hcount : (r.argument 2).toNat ≤ Call.maxBuffers
  · simp only [if_neg (Nat.not_lt.mpr hcount)]
    exact call_writeGathered hm hr hcount
  · have hlt := Nat.lt_of_not_le hcount
    simp only [if_pos hlt]
    exact ⟨_, _, call_writeGathered_of_lt hr hlt c, rfl, rfl⟩

end Caller

end Linux

end LongMode
