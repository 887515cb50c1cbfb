import LongMode.Proofs.Linux.Dispatch
import Mathlib.Data.List.Induction

/-!
The table of descriptors over time.

* A call changes what a descriptor refers to only if it is about this descriptor, or opens a file
  there (`Caller.get?_call`); of the two, only opening and closing change more than the position in
  a file (`Caller.opened?_call`).
* Therefore a descriptor refers to what it was last opened for, if it has not been closed since:
  what has been done about it, call by call, is `Caller.Traces`, and the table is what this says
  (`Caller.traces_iff`).
* A call on a descriptor answers that it is bad just if the descriptor does not refer to anything
  that the call could use (`Caller.findsBad_call`).
-/

set_option autoImplicit false
set_option relaxedAutoImplicit false

namespace LongMode

namespace Linux

/-! ### Calls about descriptors -/

/-- What a call on a descriptor demands of the object there. -/
def Syscall.demands : Syscall → OpenObject → Bool
  | read, o => o.isReadable
  | write, o | writeGathered, o => o.isWritable
  | _, _ => true

theorem FileError.errno_ne_ebadf (e : FileError) : e.errno ≠ .ebadf := by
  cases e <;> decide

/-- An object as it was when it was opened: nothing was read or written yet. -/
def OpenObject.opened : OpenObject → OpenObject
  | file f => .file { f with position := 0 }
  | o => o

namespace DescriptorTable

/-- What a descriptor is open for. -/
def opened? (t : DescriptorTable) (d : Word) : Option OpenObject :=
  (t.get? d).map OpenObject.opened

theorem opened?_eq_none_iff {t : DescriptorTable} {d : Word} :
    t.opened? d = none ↔ t.get? d = none :=
  Option.map_eq_none_iff

theorem opened?_congr {t t' : DescriptorTable} {d : Word} (h : t'.get? d = t.get? d) :
    t'.opened? d = t.opened? d :=
  congrArg (Option.map OpenObject.opened) h

/-- A file in another position is open for the same. -/
theorem opened?_set_file {t : DescriptorTable} {d : Word} {f f' : OpenFile}
    (ho : t.get? d = some (.file f)) (hf : f' = { f with position := f'.position }) :
    (t.set d.toNat (.file f')).opened? d = t.opened? d := by
  rw [opened?, opened?, get?_set, if_pos rfl, ho, hf]
  rfl

/-- The standard streams are open for what they are. -/
theorem opened?_standard (d : Word) : standard.opened? d = standard.get? d := by
  rw [opened?, get?_standard]
  split_ifs <;> rfl

end DescriptorTable

end Linux

/-- The descriptor that a request is about, if it is one to read, to write, to move the position or
to close. -/
def SyscallRequest.descriptor? (r : SyscallRequest) : Option Linux.Word :=
  match r.syscall? with
  | some .read | some .write | some .writeGathered | some .reposition | some .close =>
    some (r.argument 0)
  | _ => none

namespace Linux

namespace Caller

/-- A call opens a file, and the answer is a descriptor: the file is where the path leads. -/
structure Opened (c : Caller) (r : SyscallRequest) (d : Word) (f : OpenFile) : Prop where
  /-- The answer. -/
  answer : (c.call r).1 = .answer (.ok d)
  /-- The file. -/
  file : ∃ directory a flags text place, opening? r = some (directory, a, flags) ∧
    Ends (Call.loadPath a) c text c ∧ (c.call r).2.kernel.directory.resolve text = .ok place ∧
    f = .ofFlags place flags

variable {c c' : Caller} {r : SyscallRequest} {d : Word} {f f' : OpenFile}

theorem Opened.unique (h : c.Opened r d f) (h' : c.Opened r d f') : f = f' := by
  obtain ⟨directory, a, flags, text, place, hr, htext, hplace, rfl⟩ := h.file
  obtain ⟨directory', a', flags', text', place', hr', htext', hplace', rfl⟩ := h'.file
  cases hr.symm.trans hr'
  cases htext.symm.trans htext'
  cases hplace.symm.trans hplace'
  rfl

/-- A call to open that answers with a descriptor has opened a file there. -/
theorem opened_of_opens {directory a flags : Word} (hr : opening? r = some (directory, a, flags))
    (hcall : c.call r = (.ofWord (.ok d), c')) (h : c.Opens a flags (.ok d) c') :
    ∃ f, c.Opened r d f ∧ c.kernel.descriptors.LowestFree d ∧
      c'.kernel.descriptors = c.kernel.descriptors.set d.toNat (.file f) := by
  cases h with
  | opened text htext hmode w hw files hfiles place hplace =>
    refine ⟨.ofFlags place flags, ⟨by rw [hcall]; rfl, ?_⟩, hw, rfl⟩
    refine ⟨directory, a, flags, text, place, hr, htext, ?_, rfl⟩
    rw [hcall]
    exact hplace

/-- A call leaves a descriptor alone that it is not about, unless it opens a file there. -/
theorem get?_call (hm : c.memory.WellFormed) (hd : r.descriptor? ≠ some d)
    (hopened : ∀ f, ¬c.Opened r d f) :
    (c.call r).2.kernel.descriptors.get? d = c.kernel.descriptors.get? d := by
  have hother {t : DescriptorTable} {w : Word} (o : OpenObject) (h : w ≠ d) :
      (t.set w.toNat o).get? d = t.get? d := by
    rw [DescriptorTable.get?_set, if_neg (mt BitVec.eq_of_toNat_eq h)]
  have hdoes := does_call hm r
  generalize hcall : c.call r = out at hdoes ⊢
  obtain ⟨disposition, next⟩ := out
  dsimp only at hdoes ⊢
  cases hdoes with
  | reads hr result c' h =>
    rw [SyscallRequest.descriptor?, hr] at hd
    cases h with
    | file => exact hother _ (fun hsame ↦ hd (congrArg some hsame))
    | _ => rfl
  | puts hr needed places hplaces result c' h =>
    have hdescriptor : r.descriptor? = some (r.argument 0) := by
      rw [SyscallRequest.descriptor?]
      rcases hr with hr | hr <;> rw [hr]
    rw [hdescriptor] at hd
    cases h with
    | file => exact hother _ (fun hsame ↦ hd (congrArg some hsame))
    | _ => rfl
  | opens directory a flags hr result c' h =>
    cases result with
    | error e => cases h <;> rfl
    | ok w =>
      obtain ⟨f, hopens, -, htable⟩ := opened_of_opens hr hcall h
      rw [htable]
      refine hother _ fun hsame ↦ ?_
      subst hsame
      exact hopened f hopens
  | repositions hr result c' h =>
    rw [SyscallRequest.descriptor?, hr] at hd
    cases h with
    | moved => exact hother _ (fun hsame ↦ hd (congrArg some hsame))
    | _ => rfl
  | closes hr result c' h =>
    rw [SyscallRequest.descriptor?, hr] at hd
    cases h with
    | closed =>
      exact (DescriptorTable.get?_erase _ _ _).trans (if_neg fun hsame ↦ hd (congrArg some hsame))
    | notOpen => rfl
  | maps hr result c' h => cases h <;> rfl
  | unmaps hr result c' h => cases h <;> rfl
  | protects hr result c' h => cases h <;> rfl
  | movesBreak hr w c' h => cases h <;> rfl
  | tells disposition c' h =>
    cases h with
    | number n hn c' hkernel => rw [hkernel]
    | _ => rfl

theorem Reads.opened?_eq {buffer count : Word} {result : Except Errno Word}
    (h : c.Reads d buffer count result c') :
    c'.kernel.descriptors.opened? d = c.kernel.descriptors.opened? d := by
  cases h with
  | file f f' ho _ _ bytes hread =>
    exact DescriptorTable.opened?_set_file ho (OpenFile.eq_of_read hread)
  | _ => rfl

theorem Puts.opened?_eq {needed places : List Address} {result : Except Errno Word}
    (h : c.Puts d needed places result c') :
    c'.kernel.descriptors.opened? d = c.kernel.descriptors.opened? d := by
  cases h with
  | file f f' directory ho _ _ hwrite =>
    exact DescriptorTable.opened?_set_file ho (OpenFile.grows_write hwrite).1
  | _ => rfl

theorem Repositions.opened?_eq {offset base : Word} {result : Except Errno Word}
    (h : c.Repositions d offset base result c') :
    c'.kernel.descriptors.opened? d = c.kernel.descriptors.opened? d := by
  cases h with
  | moved f ho => exact DescriptorTable.opened?_set_file ho rfl
  | _ => rfl

/-- Only opening and closing change more of what a descriptor refers to than a position. -/
theorem opened?_call (hm : c.memory.WellFormed) (hopened : ∀ f, ¬c.Opened r d f)
    (hclose : ¬(r.syscall? = some .close ∧ r.argument 0 = d)) :
    (c.call r).2.kernel.descriptors.opened? d = c.kernel.descriptors.opened? d := by
  by_cases hd : r.descriptor? = some d
  · unfold SyscallRequest.descriptor? at hd
    split at hd
    next hr =>
      obtain ⟨result, c', hcall, h⟩ := call_read hm hr
      rw [hcall, ← Option.some.inj hd]
      exact h.opened?_eq
    next hr =>
      obtain ⟨result, c', hcall, h⟩ := call_write hm hr
      rw [hcall, ← Option.some.inj hd]
      exact h.opened?_eq
    next hr =>
      by_cases hcount : (r.argument 2).toNat ≤ Call.maxBuffers
      · obtain ⟨result, c', hcall, h⟩ := call_writeGathered hm hr hcount
        rw [hcall, ← Option.some.inj hd]
        exact h.opened?_eq
      · rw [call_writeGathered_of_lt hr (Nat.lt_of_not_le hcount)]
    next hr =>
      obtain ⟨result, c', hcall, h⟩ := call_reposition hr c
      rw [hcall, ← Option.some.inj hd]
      exact h.opened?_eq
    next hr => exact absurd ⟨hr, Option.some.inj hd⟩ hclose
    next => cases hd
  · exact DescriptorTable.opened?_congr (get?_call hm hd hopened)

/-- A file that is opened goes to the lowest descriptor that was free. -/
theorem Opened.installed (h : c.Opened r d f) : c.kernel.descriptors.LowestFree d ∧
    (c.call r).2.kernel.descriptors.get? d = some (.file f) := by
  obtain ⟨directory, a, flags, _, _, hr, -⟩ := h.file
  obtain ⟨result, c', hcall, hopens⟩ := call_open hr c
  have hanswer := h.answer
  rw [hcall] at hanswer
  cases result with
  | error e => cases hanswer
  | ok w =>
    cases hanswer
    obtain ⟨f', hopened, hlowest, htable⟩ := opened_of_opens hr hcall hopens
    refine ⟨hlowest, ?_⟩
    rw [hcall]
    dsimp only
    rw [htable, DescriptorTable.get?_set, if_pos rfl, hopened.unique h]

theorem get?_of_close (hr : r.syscall? = some .close) (c : Caller) :
    (c.call r).2.kernel.descriptors.get? (r.argument 0) = none := by
  obtain ⟨result, c', hcall, h⟩ := call_close hr c
  rw [hcall]
  cases h with
  | closed => exact (DescriptorTable.get?_erase _ _ _).trans (if_pos rfl)
  | notOpen ho => exact ho

/-! ### Bad descriptors -/

/-- A call on a descriptor finds it bad, and does nothing, just if there is no object that it could
use. -/
structure FindsBad (c : Caller) (d : Word) (p : OpenObject → Bool) (result : Except Errno Word)
    (c' : Caller) : Prop where
  /-- The descriptor is bad just if there is no such object. -/
  iff : result = .error .ebadf ↔ (c.kernel.descriptors.get? d).filter p = none
  /-- The call then does nothing. -/
  unchanged : result = .error .ebadf → c' = c

theorem findsBad_of_none {p : OpenObject → Bool}
    (h : (c.kernel.descriptors.get? d).filter p = none) : c.FindsBad d p (.error .ebadf) c :=
  ⟨iff_of_true rfl h, fun _ ↦ rfl⟩

theorem findsBad_of_some {p : OpenObject → Bool} {o : OpenObject} {result : Except Errno Word}
    (ho : c.kernel.descriptors.get? d = some o) (hp : p o = true)
    (hresult : result ≠ .error .ebadf) : c.FindsBad d p result c' := by
  refine ⟨iff_of_false hresult ?_, fun h ↦ absurd h hresult⟩
  rw [ho, Option.filter_some, hp, if_pos rfl]
  exact Option.some_ne_none o

theorem Reads.findsBad {buffer count : Word} {result : Except Errno Word}
    (h : c.Reads d buffer count result c') : c.FindsBad d Syscall.read.demands result c' := by
  cases h with
  | notReadable h => exact findsBad_of_none h
  | noBuffer o ho =>
    rw [Option.filter_eq_some_iff] at ho
    exact findsBad_of_some ho.1 ho.2 nofun
  | input ho => exact findsBad_of_some ho rfl nofun
  | file f f' ho hreadable => exact findsBad_of_some ho hreadable nofun
  | failed f ho hreadable _ e =>
    exact findsBad_of_some ho hreadable fun h ↦ e.errno_ne_ebadf (Except.error.inj h)

theorem Puts.findsBad {needed places : List Address} {result : Except Errno Word}
    (h : c.Puts d needed places result c') : c.FindsBad d Syscall.write.demands result c' := by
  cases h with
  | notWritable h => exact findsBad_of_none h
  | unreadable o ho =>
    rw [Option.filter_eq_some_iff] at ho
    exact findsBad_of_some ho.1 ho.2 nofun
  | output ho => exact findsBad_of_some ho rfl nofun
  | errors ho => exact findsBad_of_some ho rfl nofun
  | file f f' directory ho hwritable => exact findsBad_of_some ho hwritable nofun
  | failed f ho hwritable => exact findsBad_of_some ho hwritable nofun

theorem Repositions.findsBad {offset base : Word} {result : Except Errno Word}
    (h : c.Repositions d offset base result c') :
    c.FindsBad d Syscall.reposition.demands result c' := by
  cases h with
  | notOpen ho => exact findsBad_of_none (by rw [ho]; rfl)
  | stream o ho => exact findsBad_of_some ho rfl nofun
  | moved f ho => exact findsBad_of_some ho rfl nofun
  | refused f ho => exact findsBad_of_some ho rfl nofun

theorem Closes.findsBad {result : Except Errno Word} (h : c.Closes d result c') :
    c.FindsBad d Syscall.close.demands result c' := by
  cases h with
  | closed o ho => exact findsBad_of_some ho rfl nofun
  | notOpen ho => exact findsBad_of_none (by rw [ho]; rfl)

/-- Calls on a descriptor find it bad just if there is no object that they could use. -/
theorem findsBad_call (hm : c.memory.WellFormed) {call : Syscall} (hr : r.syscall? = some call)
    (hd : r.descriptor? = some d)
    (hcount : call = .writeGathered → (r.argument 2).toNat ≤ Call.maxBuffers) :
    ∃ result c', c.call r = (.ofWord result, c') ∧ c.FindsBad d call.demands result c' := by
  have hfinds {P : Except Errno Word → Caller → Prop}
      (hcall : ∃ result c', c.call r = (.ofWord result, c') ∧ P result c')
      (h : ∀ result c', P result c' → c.FindsBad d call.demands result c') :
      ∃ result c', c.call r = (.ofWord result, c') ∧ c.FindsBad d call.demands result c' := by
    obtain ⟨result, c', heq, hP⟩ := hcall
    exact ⟨result, c', heq, h result c' hP⟩
  rw [SyscallRequest.descriptor?, hr] at hd
  cases call with
  | read =>
    obtain rfl := Option.some.inj hd
    exact hfinds (call_read hm hr) fun _ _ h ↦ h.findsBad
  | write =>
    obtain rfl := Option.some.inj hd
    exact hfinds (call_write hm hr) fun _ _ h ↦ h.findsBad
  | writeGathered =>
    obtain rfl := Option.some.inj hd
    exact hfinds (call_writeGathered hm hr (hcount rfl)) fun _ _ h ↦ h.findsBad
  | reposition =>
    obtain rfl := Option.some.inj hd
    exact hfinds (call_reposition hr c) fun _ _ h ↦ h.findsBad
  | close =>
    obtain rfl := Option.some.inj hd
    exact hfinds (call_close hr c) fun _ _ h ↦ h.findsBad
  | _ => cases hd

/-! ### The table over time -/

/-- What has been done about a descriptor, call by call: it refers to what it was last opened for,
if it has not been closed since, or to what it referred to before. -/
inductive Traces (c : Caller) (d : Word) : List Event → Option OpenObject → Prop
  | begun : Traces c d [] (c.kernel.descriptors.get? d)
  | opened {events : List Event} {r : SyscallRequest} {f : OpenFile}
    (h : (c.after events).Opened r d f) : Traces c d (events ++ [.call r]) (some (.file f))
  | closed {events : List Event} {r : SyscallRequest} (hr : r.syscall? = some .close)
    (hd : r.argument 0 = d) : Traces c d (events ++ [.call r]) none
  | other {events : List Event} {event : Event} {o : Option OpenObject} (h : Traces c d events o)
    (hopened : ∀ r f, event = .call r → ¬(c.after events).Opened r d f)
    (hclosed : ∀ r, event = .call r → ¬(r.syscall? = some .close ∧ r.argument 0 = d)) :
    Traces c d (events ++ [event]) o

/-- A descriptor refers to what has been done about it. -/
theorem Traces.opened?_eq (hm : c.memory.WellFormed) {events : List Event}
    {o : Option OpenObject} (h : c.Traces d events o)
    (hc : c.kernel.descriptors.opened? d = c.kernel.descriptors.get? d) :
    (c.after events).kernel.descriptors.opened? d = o := by
  induction h with
  | begun => exact hc
  | opened h =>
    rw [after_concat, step, DescriptorTable.opened?, h.installed.2]
    obtain ⟨_, _, _, _, _, _, _, _, rfl⟩ := h.file
    rfl
  | closed hr hd =>
    rw [after_concat, step, ← hd, DescriptorTable.opened?_eq_none_iff]
    exact get?_of_close hr _
  | @other events event o h hopened hclosed ih =>
    rw [after_concat, ← ih]
    by_cases hevent : ∃ r, event = .call r
    · obtain ⟨r, rfl⟩ := hevent
      exact opened?_call (wellFormed_after hm events) (fun f ↦ hopened r f rfl) (hclosed r rfl)
    · rw [kernel_step (not_exists.mp hevent)]

theorem exists_traces (c : Caller) (d : Word) (events : List Event) :
    ∃ o, c.Traces d events o := by
  induction events using List.reverseRecOn with
  | nil => exact ⟨_, .begun⟩
  | append_singleton events event ih =>
    by_cases hopened : ∃ r f, event = .call r ∧ (c.after events).Opened r d f
    · obtain ⟨r, f, rfl, h⟩ := hopened
      exact ⟨_, .opened h⟩
    by_cases hclosed : ∃ r, event = .call r ∧ r.syscall? = some .close ∧ r.argument 0 = d
    · obtain ⟨r, rfl, hr, hd⟩ := hclosed
      exact ⟨_, .closed hr hd⟩
    obtain ⟨o, ho⟩ := ih
    exact ⟨o, .other ho (fun r f hcall h ↦ hopened ⟨r, f, hcall, h⟩)
      fun r hcall h ↦ hclosed ⟨r, hcall, h⟩⟩

/-- What has been done about a descriptor is what it refers to, up to positions in files. -/
theorem traces_iff (hm : c.memory.WellFormed) {events : List Event} {o : Option OpenObject}
    (hc : c.kernel.descriptors.opened? d = c.kernel.descriptors.get? d) :
    c.Traces d events o ↔ (c.after events).kernel.descriptors.opened? d = o := by
  constructor
  · exact fun h ↦ h.opened?_eq hm hc
  · rintro rfl
    obtain ⟨o, ho⟩ := exists_traces c d events
    rwa [ho.opened?_eq hm hc]

/-- The descriptors that are open are below the limit. -/
def Bounded (c : Caller) : Prop :=
  ∀ d, c.kernel.descriptors.get? d ≠ none → d.toNat < DescriptorTable.limit

theorem bounded_standard (h : c.kernel.descriptors = .standard) : c.Bounded := by
  intro d hd
  rw [h, DescriptorTable.get?_standard] at hd
  by_contra hlarge
  rw [Nat.not_lt] at hlarge
  have hne (n : Nat) (hn : n < DescriptorTable.limit) : n ≠ d.toNat :=
    Nat.ne_of_lt (Nat.lt_of_lt_of_le hn hlarge)
  rw [if_neg (hne 2 (by decide)), if_neg (hne 1 (by decide)), if_neg (hne 0 (by decide))] at hd
  exact hd rfl

theorem bounded_step (hm : c.memory.WellFormed) (hc : c.Bounded) (event : Event) :
    (c.step event).Bounded := by
  by_cases hevent : ∃ r, event = .call r
  · obtain ⟨r, rfl⟩ := hevent
    intro d hd
    by_cases hopened : ∃ f, c.Opened r d f
    · obtain ⟨f, hf⟩ := hopened
      exact hf.installed.1.limit
    by_cases hclose : r.syscall? = some .close ∧ r.argument 0 = d
    · rw [step, ← hclose.2, get?_of_close hclose.1] at hd
      exact absurd rfl hd
    · have hsame := opened?_call hm (not_exists.mp hopened) hclose
      refine hc d fun hnone ↦ hd ?_
      rw [← DescriptorTable.opened?_eq_none_iff] at hnone ⊢
      exact hsame.trans hnone
  · intro d hd
    rw [kernel_step (not_exists.mp hevent)] at hd
    exact hc d hd

theorem bounded_after (hm : c.memory.WellFormed) (hc : c.Bounded) (events : List Event) :
    (c.after events).Bounded := by
  have hboth := after_induction (P := fun c ↦ c.memory.WellFormed ∧ c.Bounded) ⟨hm, hc⟩
    (fun c event h ↦ ⟨wellFormed_step h.1 event, bounded_step h.1 h.2 event⟩) events
  exact hboth.2

/-- A process begins with the three standard streams at its first descriptors, with any files and
any memory that a history can lead to; then anything happens in it. All descriptors that are open
are below 1024. A call to open a file answers with the lowest descriptor that is not open, and from
then on this is open for what the path leads to; it fails for want of a descriptor only if all are
open. A call to close a descriptor closes it, if it is open. A call on a descriptor (one to read, to
write, to write several buffers that are not too many, to move the position or to close) finds the
descriptor bad, and does nothing, just if it is not open, or not open for reading where it is to be
read, or not open for writing where it is to be written. What an open descriptor refers to is what
it was last opened for, if it has not been closed since, or else one of the standard streams, up to
the position in a file; not even that is changed by calls on other descriptors. -/
theorem descriptors_after_events (windows : Nat → MapWindow) (history : List Action) (k : Nat)
    (kernel : Kernel) (thread : Thread) (events : List Event) :
    let begun : Caller := ⟨{ kernel with descriptors := .standard },
      ((World.start windows).after history).memory k, thread⟩
    let c := begun.after events
    (∀ d, c.kernel.descriptors.get? d ≠ none → d.toNat < 1024) ∧
    (∀ r directory a flags, opening? r = some (directory, a, flags) →
      ∃ result c', c.call r = (.ofWord result, c') ∧ c.Opens a flags result c') ∧
    (∀ r, r.syscall? = some .close →
      ∃ result c', c.call r = (.ofWord result, c') ∧ c.Closes (r.argument 0) result c') ∧
    (∀ r call d, r.syscall? = some call → r.descriptor? = some d →
      (call = .writeGathered → (r.argument 2).toNat ≤ 1024) →
      ∃ result c', c.call r = (.ofWord result, c') ∧ c.FindsBad d call.demands result c') ∧
    (∀ d o, begun.Traces d events o ↔ c.kernel.descriptors.opened? d = o) ∧
    (∀ r d, r.descriptor? ≠ some d → (∀ f, ¬c.Opened r d f) →
      (c.call r).2.kernel.descriptors.get? d = c.kernel.descriptors.get? d) := by
  intro begun c
  have hbegun : begun.memory.WellFormed := (World.wellFormed_after windows history).memory k
  have hm : c.memory.WellFormed := wellFormed_after hbegun events
  exact ⟨bounded_after hbegun (bounded_standard rfl) events,
    fun r directory a flags hr ↦ call_open hr c, fun r hr ↦ call_close hr c,
    fun r call d hr hd hcount ↦ findsBad_call hm hr hd hcount,
    fun d o ↦ traces_iff hbegun (DescriptorTable.opened?_standard d),
    fun r d hd hopened ↦ get?_call hm hd hopened⟩

end Caller

end Linux

end LongMode
