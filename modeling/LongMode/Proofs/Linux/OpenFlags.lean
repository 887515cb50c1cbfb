import LongMode.Proofs.Linux.Descriptors

/-!
What the flags of a call to open a file do to the file. The path leads to a place in a directory,
where there is a file or nothing yet.

* Whether the file is opened, and with what contents, follows from the flags and from whether it is
  there (`Directory.LeadsTo.openPath_ofFlags`). Flags to drop the contents and to append contradict
  each other, unless the file has to be made (`OpenFlags.contradict`): such a call fails although
  there is nothing wrong with it.
* A call to open makes a file for reading in two steps, with the same outcome as one that makes it
  for writing in one (`Call.run_openText_of_leadsTo`).
* The file stays at its place whatever happens (`Caller.grows_after`), so that what is written to a
  descriptor that appends lands at its end, as long as this is not closed (`Caller.appends_call`).
-/

set_option autoImplicit false
set_option relaxedAutoImplicit false

namespace LongMode.Linux

open OpenFlags

/-- Flags to drop the contents of a file and to append to it, unless the file has to be made. -/
def OpenFlags.contradict (flags : Word) : Bool :=
  writes flags && truncates flags && appends flags && !(creates flags && excludes flags)

/-- The contents of a file once it is opened, if it is there already or may be made. -/
def OpenFlags.contents? (flags : Word) : Option (List UInt8) → Option (List UInt8)
  | none => if creates flags then some [] else none
  | some old =>
    if creates flags && excludes flags then none
    else some (if writes flags && truncates flags then [] else old)

theorem OpenFlags.contents?_eq_none_iff {flags : Word} {old : Option (List UInt8)} :
    contents? flags old = none ↔
      old = none ∧ creates flags = false ∨
        old ≠ none ∧ creates flags = true ∧ excludes flags = true := by
  cases old <;> simp [contents?]

theorem OpenFlags.eq_of_contents? {flags : Word} {old : Option (List UInt8)}
    {contents : List UInt8} (h : contents? flags old = some contents) :
    contents = if writes flags && truncates flags then [] else old.getD [] := by
  cases old with
  | none =>
    rw [contents?, Option.ite_none_right_eq_some] at h
    rw [← Option.some.inj h.2, Option.getD_none, ite_self]
  | some old =>
    rw [contents?, Option.ite_none_left_eq_some] at h
    exact (Option.some.inj h.2).symm

/-! ### Places of files -/

namespace Directory

namespace LeadsTo

variable {d : Directory} {text : String} {place : Path} {flags : Word}

/-- Where there is no file there is nothing. -/
theorem node?_eq_none (h : d.LeadsTo text place) (hold : d.contents? place = none) :
    d.node? place = none := by
  have hfile := h.file
  rw [contents?] at hold
  cases hnode : d.node? place with
  | none => rfl
  | some node =>
    rw [hnode] at hold hfile
    cases node with
    | directory => exact absurd rfl hfile
    | file contents => cases hold

theorem creation_eq_never_iff : (OpenRequest.ofFlags flags).creation = .never ↔
    (creates flags && writes flags) = false := by
  simp only [OpenRequest.ofFlags]
  generalize (creates flags && writes flags) = makes
  generalize excludes flags = exclusive
  decide +revert

theorem creation_eq_always_iff : (OpenRequest.ofFlags flags).creation = .always ↔
    (creates flags && writes flags && excludes flags) = true := by
  simp only [OpenRequest.ofFlags]
  generalize (creates flags && writes flags) = makes
  generalize excludes flags = exclusive
  decide +revert

/-- Flags contradict each other just if they make a request that contradicts itself. -/
theorem contradicts_iff :
    ((OpenRequest.ofFlags flags).append && (OpenRequest.ofFlags flags).truncate &&
      decide ((OpenRequest.ofFlags flags).creation ≠ .always)) = contradict flags := by
  simp only [ne_eq, creation_eq_always_iff]
  simp only [OpenRequest.ofFlags, contradict]
  generalize writes flags = writing
  generalize truncates flags = truncating
  generalize appends flags = appending
  generalize creates flags = creating
  generalize excludes flags = exclusive
  decide +revert

/-- What the flags make of the contents is what the file has once it is opened, unless it has to be
made for reading first. -/
theorem exists_openPath (h : d.LeadsTo text place) (hflags : contradict flags = false)
    (hreading : (creates flags && !writes flags) = false) {contents : List UInt8}
    (hcontents : OpenFlags.contents? flags (d.contents? place) = some contents) :
    ∃ files, d.openPath (.ofFlags flags) text = .ok (place, files) ∧
      d.PutAt place contents files := by
  have hr := contradicts_iff.trans hflags
  cases hold : d.contents? place with
  | none =>
    rw [hold, OpenFlags.contents?] at hcontents
    split at hcontents
    next hcreates =>
      obtain rfl := Option.some.inj hcontents
      have hmakes : ¬(OpenRequest.ofFlags flags).creation = .never := by
        rw [creation_eq_never_iff]
        simpa [hcreates] using hreading
      rw [h.openPath_of_missing hr (h.node?_eq_none hold), if_neg hmakes]
      exact ⟨_, rfl, putAt_put (ne_nil_of_node?_ne h.file) []⟩
    next => cases hcontents
  | some old =>
    rw [hold, OpenFlags.contents?] at hcontents
    split at hcontents
    next => cases hcontents
    next hexcludes =>
      obtain rfl := Option.some.inj hcontents
      have hfinds : ¬(OpenRequest.ofFlags flags).creation = .always := by
        rw [creation_eq_always_iff]
        grind
      rw [h.openPath_of_contents hr hold, if_neg hfinds]
      refine ⟨_, rfl, ?_⟩
      change d.PutAt place _ (if (writes flags && truncates flags) = true then _ else d)
      split
      · exact putAt_put (ne_nil_of_node?_ne h.file) []
      · exact putAt_self hold

/-- Otherwise the file is not opened, because it is there or because it is not. -/
theorem openPath_eq_error (h : d.LeadsTo text place) (hflags : contradict flags = false)
    (hreading : (creates flags && !writes flags) = false)
    (hcontents : OpenFlags.contents? flags (d.contents? place) = none) :
    d.openPath (.ofFlags flags) text =
      .error (if (d.contents? place).isSome then .alreadyExists else .notFound) := by
  have hr := contradicts_iff.trans hflags
  cases hold : d.contents? place with
  | none =>
    rw [hold, OpenFlags.contents?, ite_eq_right_iff] at hcontents
    have hnever : (OpenRequest.ofFlags flags).creation = .never := by
      rw [creation_eq_never_iff]
      grind
    rw [h.openPath_of_missing hr (h.node?_eq_none hold), if_pos hnever]
    rfl
  | some old =>
    rw [hold, OpenFlags.contents?, ite_eq_left_iff] at hcontents
    have halways : (OpenRequest.ofFlags flags).creation = .always := by
      rw [creation_eq_always_iff]
      grind
    rw [h.openPath_of_contents hr hold, if_pos halways]
    rfl

/-- A file that is there is opened for reading as it is. -/
theorem openPath_of_not_writes (h : d.LeadsTo text place) (hwrites : writes flags = false)
    {old : List UInt8} (hold : d.contents? place = some old) :
    d.openPath (.ofFlags flags) text = .ok (place, d) := by
  have hflags : contradict flags = false := by
    rw [contradict, hwrites]
    rfl
  have hfinds : ¬(OpenRequest.ofFlags flags).creation = .always := by
    rw [creation_eq_always_iff, hwrites, Bool.and_false]
    exact Bool.false_ne_true
  have hkeeps : ¬(OpenRequest.ofFlags flags).truncate = true := by
    change ¬(writes flags && truncates flags) = true
    rw [hwrites]
    exact Bool.false_ne_true
  rw [h.openPath_of_contents (contradicts_iff.trans hflags) hold, if_neg hfinds, if_neg hkeeps]

end LeadsTo

end Directory

/-! ### Opening a file at a place -/

/-- What a call to open the file at a place comes to, if a descriptor is free. -/
inductive Caller.OpensFile (c : Caller) (place : Path) (flags : Word) :
    Except Errno Word → Caller → Prop
  /-- The flags contradict each other: nothing changes. -/
  | contradicting (hflags : contradict flags = true) :
    OpensFile c place flags (.error .einval) c
  /-- The file is there but must not be, or is not there and is not to be made: nothing changes. -/
  | refused (hflags : contradict flags = false)
    (hcontents : OpenFlags.contents? flags (c.kernel.directory.contents? place) = none) :
    OpensFile c place flags
      (.error (if (c.kernel.directory.contents? place).isSome then .eexist else .enoent)) c
  /-- The file is open, with what the flags make of its contents. -/
  | opened (hflags : contradict flags = false) (contents : List UInt8)
    (hcontents : OpenFlags.contents? flags (c.kernel.directory.contents? place) = some contents)
    (w : Word) (hw : c.kernel.descriptors.LowestFree w) (files : Directory)
    (hfiles : c.kernel.directory.PutAt place contents files) :
    OpensFile c place flags (.ok w)
      { c with kernel := { c.kernel with
        directory := files
        descriptors := c.kernel.descriptors.set w.toNat
          (.file (.ofFlags place flags)) } }

namespace Call

variable {c : Caller} {text : String} {place : Path} {flags : Word}

/-- Making a file for reading. -/
theorem run_createForReading (h : c.kernel.directory.LeadsTo text place) (exclusive : Bool) :
    (createForReading text exclusive).run.run c =
      match c.kernel.directory.contents? place with
      | none => (.ok (), c.withFiles (c.kernel.directory.put place (.file [])))
      | some _ => if exclusive then (.error .eexist, c) else (.ok (), c) := by
  rw [createForReading, (ends_kernel c).run_bind]
  cases hold : c.kernel.directory.contents? place with
  | none =>
    rw [h.openPath_of_missing rfl (h.node?_eq_none hold)]
    rfl
  | some old =>
    rw [h.openPath_of_contents rfl hold]
    cases exclusive <;> rfl

/-- Once the file is found it goes to the lowest free descriptor. -/
theorem opensFile_of_openPath (hfree : ¬c.kernel.descriptors.Full)
    (hflags : contradict flags = false) {contents : List UInt8}
    (hcontents : OpenFlags.contents? flags (c.kernel.directory.contents? place) = some contents)
    {files files' : Directory}
    (hopen : files.openPath (.ofFlags flags) text = .ok (place, files'))
    (hfiles : c.kernel.directory.PutAt place contents files') :
    ∃ result c', (do
        let place ← openInDirectory (.ofFlags flags) text
        install (.ofFlags place flags) : Call Word).run.run (c.withFiles files) = (result, c') ∧
      c.OpensFile place flags result c' := by
  rw [run_openAndInstall_of_eq_ok hopen]
  rcases c.kernel.descriptors.lowestFree?_cases with ⟨w, hlowest, hw⟩ | ⟨-, hfull⟩
  · rw [hlowest]
    refine ⟨.ok w, _, ?_, .opened hflags contents hcontents w hw files' hfiles⟩
    simp only [BitVec.ofNat_toNat, BitVec.setWidth_eq]
  · exact absurd hfull hfree

theorem run_openText_of_reading (h : c.kernel.directory.LeadsTo text place)
    (hfree : ¬c.kernel.descriptors.Full) (hcreates : creates flags = true)
    (hwrites : writes flags = false) :
    ∃ result c', (do
        createForReading text (excludes flags)
        let place ← openInDirectory (.ofFlags flags) text
        install (.ofFlags place flags) : Call Word).run.run c = (result, c') ∧
      c.OpensFile place flags result c' := by
  have hflags : contradict flags = false := by
    rw [contradict, hwrites]
    rfl
  have hcreate := run_createForReading h (excludes flags)
  cases hold : c.kernel.directory.contents? place with
  | none =>
    have hput : c.kernel.directory.PutAt place [] (c.kernel.directory.put place (.file [])) :=
      Directory.putAt_put (Directory.ne_nil_of_node?_ne h.file) []
    have hpath := h.grows (hput.grows h.file)
      fun hnode ↦ nomatch (Directory.contents?_eq_some_iff.mp hput.file).symm.trans hnode
    rw [hold] at hcreate
    have hends : Ends (createForReading text (excludes flags)) c () (c.withFiles _) := hcreate
    rw [hends.run_bind]
    refine opensFile_of_openPath hfree hflags ?_ (hpath.openPath_of_not_writes hwrites hput.file)
      hput
    rw [hold, OpenFlags.contents?, if_pos hcreates]
  | some old =>
    rw [hold] at hcreate
    cases hexcludes : excludes flags with
    | true =>
      rw [hexcludes] at hcreate
      refine ⟨_, c, run_bind_of_error hcreate, ?_⟩
      have hnone : OpenFlags.contents? flags (c.kernel.directory.contents? place) = none := by
        rw [hold, OpenFlags.contents?, hcreates, hexcludes]
        rfl
      have hrefused := Caller.OpensFile.refused hflags hnone
      rwa [hold] at hrefused
    | false =>
      rw [hexcludes] at hcreate
      have hends : Ends (createForReading text false) c () (c.withFiles c.kernel.directory) :=
        hcreate
      rw [hends.run_bind]
      refine opensFile_of_openPath hfree hflags ?_ (h.openPath_of_not_writes hwrites hold)
        (Directory.putAt_self hold)
      rw [hold, OpenFlags.contents?, hcreates, hexcludes, hwrites]
      rfl

theorem run_openText_of_leadsTo (h : c.kernel.directory.LeadsTo text place)
    (hfree : ¬c.kernel.descriptors.Full) (flags : Word) :
    ∃ result c', (openText text flags).run.run c = (result, c') ∧
      c.OpensFile place flags result c' := by
  unfold openText
  split
  next hreading =>
    rw [Bool.and_eq_true, Bool.not_eq_true'] at hreading
    exact run_openText_of_reading h hfree hreading.1 hreading.2
  next hreading =>
    rw [Bool.not_eq_true] at hreading
    have hrun := run_openInDirectory c (.ofFlags flags) text
    cases hflags : contradict flags with
    | true =>
      have hopen : c.kernel.directory.openPath (.ofFlags flags) text = .error .invalidRequest := by
        rw [Directory.openPath, if_pos (Directory.LeadsTo.contradicts_iff.trans hflags)]
      rw [hopen] at hrun
      exact ⟨_, c, run_bind_of_error hrun, .contradicting hflags⟩
    | false =>
      cases hcontents : OpenFlags.contents? flags (c.kernel.directory.contents? place) with
      | none =>
        rw [h.openPath_eq_error hflags hreading hcontents] at hrun
        have hrefused := Caller.OpensFile.refused hflags hcontents
        refine ⟨_, c, run_bind_of_error hrun, ?_⟩
        cases hold : c.kernel.directory.contents? place <;> rwa [hold] at hrefused
      | some contents =>
        obtain ⟨files, hopen, hfiles⟩ := h.exists_openPath hflags hreading hcontents
        exact opensFile_of_openPath hfree hflags hcontents hopen hfiles

end Call

namespace Caller

variable {c c' : Caller} {r : SyscallRequest} {w flags : Word} {place : Path} {f : OpenFile}
  {o : OpenObject} {before : List UInt8}

/-! ### Files and descriptors over time -/

/-- No call makes anything disappear from the tree. -/
theorem grows_call (hm : c.memory.WellFormed) (r : SyscallRequest) :
    c.kernel.directory.Grows (c.call r).2.kernel.directory := by
  have hdoes := does_call hm r
  generalize c.call r = out at hdoes ⊢
  obtain ⟨disposition, next⟩ := out
  dsimp only at hdoes ⊢
  have hsame := refl_of Directory.Grows c.kernel.directory
  cases hdoes with
  | reads _ _ _ h => cases h <;> exact hsame
  | puts _ _ _ _ _ _ h =>
    cases h with
    | file f f' directory _ _ _ hwrite => exact (OpenFile.grows_write hwrite).2
    | _ => exact hsame
  | opens _ _ _ _ _ _ h => cases h <;> assumption
  | repositions _ _ _ h => cases h <;> exact hsame
  | closes _ _ _ h => cases h <;> exact hsame
  | maps _ _ _ h => cases h <;> exact hsame
  | unmaps _ _ _ h => cases h <;> exact hsame
  | protects _ _ _ h => cases h <;> exact hsame
  | movesBreak _ _ _ h => cases h <;> exact hsame
  | tells _ _ h =>
    cases h with
    | number _ _ _ hkernel => rwa [hkernel]
    | _ => exact hsame

theorem grows_step (hm : c.memory.WellFormed) (event : Event) :
    c.kernel.directory.Grows (c.step event).kernel.directory := by
  by_cases hevent : ∃ r, event = .call r
  · obtain ⟨r, rfl⟩ := hevent
    exact grows_call hm r
  · rw [kernel_step (not_exists.mp hevent)]
    exact refl_of Directory.Grows _

theorem grows_after (hm : c.memory.WellFormed) (events : List Event) :
    c.kernel.directory.Grows (c.after events).kernel.directory := by
  have hboth := after_induction
    (P := fun e ↦ e.memory.WellFormed ∧ c.kernel.directory.Grows e.kernel.directory)
    ⟨hm, refl_of Directory.Grows _⟩ (fun e event h ↦ ⟨wellFormed_step h.1 event,
      trans_of Directory.Grows h.2 (grows_step h.1 event)⟩) events
  exact hboth.2

/-- A descriptor is never closed by some events. -/
def Spares (events : List Event) (w : Word) : Prop :=
  ∀ r, .call r ∈ events → ¬(r.syscall? = some .close ∧ r.argument 0 = w)

/-- An open descriptor refers to the same object until it is closed. -/
theorem opened?_after (hm : c.memory.WellFormed) (ho : c.kernel.descriptors.get? w ≠ none)
    {events : List Event} (hevents : Spares events w) :
    (c.after events).kernel.descriptors.opened? w = c.kernel.descriptors.opened? w := by
  induction events generalizing c with
  | nil => rfl
  | cons event events ih =>
    have hstep : (c.step event).kernel.descriptors.opened? w =
        c.kernel.descriptors.opened? w := by
      by_cases hevent : ∃ r, event = .call r
      · obtain ⟨r, rfl⟩ := hevent
        exact opened?_call hm (fun f h ↦ ho h.installed.1.free)
          (hevents r List.mem_cons_self)
      · rw [kernel_step (not_exists.mp hevent)]
    have hopen : (c.step event).kernel.descriptors.get? w ≠ none := by
      rw [ne_eq, ← DescriptorTable.opened?_eq_none_iff] at ho ⊢
      rwa [hstep]
    rw [after_cons, ih (wellFormed_step hm event) hopen
      fun r hr ↦ hevents r (List.mem_cons_of_mem _ hr), hstep]

/-! ### Appending -/

/-- What a call to put bytes out on a descriptor that appends comes to. -/
inductive Appends (c : Caller) (place : Path) (needed places : List Address) :
    Except Errno Word → Caller → Prop
  /-- The bytes are behind what was in the file, and no other file has changed. -/
  | landed (h : ∀ a ∈ needed, c.memory.permits .read a = true) (before : List UInt8)
    (hbefore : c.kernel.directory.contents? place = some before) (c' : Caller)
    (hafter : c.kernel.directory.PutAt place (before ++ places.map c.memory.byte)
      c'.kernel.directory) :
    Appends c place needed places (.ok (BitVec.ofNat 64 places.length)) c'
  /-- One of the bytes cannot be read: nothing changes. -/
  | unreadable (h : ∃ a ∈ needed, ¬c.memory.permits .read a = true) :
    Appends c place needed places (.error .efault) c

theorem Puts.appends {needed places : List Address} {result : Except Errno Word}
    (h : c.Puts w needed places result c')
    (ho : c.kernel.descriptors.get? w = some (.file f)) (hwritable : f.writable = true)
    (happend : f.append = true) (hbefore : c.kernel.directory.contents? f.place = some before) :
    c.Appends f.place needed places result c' := by
  obtain ⟨f₂, d₂, hwrites, hafter⟩ :=
    OpenFile.write_append happend hbefore (places.map c.memory.byte)
  cases h with
  | notWritable hnone =>
    rw [ho, Option.filter_some] at hnone
    simp [OpenObject.isWritable, hwritable] at hnone
  | unreadable _ _ h => exact .unreadable h
  | output ho' => cases ho.symm.trans ho'
  | errors ho' => cases ho.symm.trans ho'
  | file f₁ f' directory ho' _ h hwrite =>
    cases ho.symm.trans ho'
    cases hwrite.symm.trans hwrites
    exact .landed h before hbefore _ hafter
  | failed f₁ ho' _ h e hwrite =>
    cases ho.symm.trans ho'
    cases hwrite.symm.trans hwrites

/-- Whatever happens next, as long as a descriptor is not closed, calls to write to it append to the
file at a place. -/
def KeepsAppending (c : Caller) (w : Word) (place : Path) : Prop :=
  ∀ events, Spares events w → ∀ r : SyscallRequest, r.argument 0 = w →
    let e := c.after events
    (r.syscall? = some .write → ∃ result e', e.call r = (.ofWord result, e') ∧
      let places := addresses (r.argument 1) (Call.quota (r.argument 2))
      e.Appends place places places result e') ∧
    (r.syscall? = some .writeGathered → ∃ result e', e.call r = (.ofWord result, e') ∧
      let count := (r.argument 2).toNat
      let places := e.memory.gathered (r.argument 1) count Call.maxTransfer
      if Call.maxBuffers < count then result = .error .einval ∧ e' = e
      else e.Appends place (addresses (r.argument 1) (16 * count) ++ places) places result e')

/-- An object that is a file up to its position is a file that differs in nothing else. -/
theorem eq_file_of_opened (h : o.opened = OpenObject.opened (.file f)) :
    ∃ position, o = .file { f with position } := by
  cases o with
  | file f' =>
    refine ⟨f'.position, congrArg OpenObject.file ?_⟩
    have hopened : { f' with position := 0 } = { f with position := 0 } := OpenObject.file.inj h
    exact congrArg (fun g : OpenFile ↦ { g with position := f'.position }) hopened
  | input => cases h
  | output => cases h
  | errors => cases h

theorem keepsAppending (hm : c.memory.WellFormed)
    (ho : c.kernel.descriptors.get? w = some (.file f)) (hwritable : f.writable = true)
    (happend : f.append = true) (hbefore : c.kernel.directory.contents? f.place = some before) :
    c.KeepsAppending w f.place := by
  intro events hevents r hr e
  have he : e.memory.WellFormed := wellFormed_after hm events
  have hsame := opened?_after hm (by rw [ho]; exact Option.some_ne_none _) hevents
  rw [DescriptorTable.opened?, DescriptorTable.opened?, ho] at hsame
  obtain ⟨o, ho', hopened⟩ := Option.map_eq_some_iff.mp hsame
  obtain ⟨position, rfl⟩ := eq_file_of_opened hopened
  obtain ⟨now, hnow⟩ :=
    (grows_after hm events).file (Directory.contents?_eq_some_iff.mp hbefore)
  rw [← Directory.contents?_eq_some_iff] at hnow
  have happends {needed places : List Address} {result : Except Errno Word} {e' : Caller}
      (h : e.Puts (r.argument 0) needed places result e') :
      e.Appends f.place needed places result e' := by
    rw [hr] at h
    exact Puts.appends (f := { f with position }) h ho' hwritable happend hnow
  constructor
  · intro hcall
    obtain ⟨result, e', heq, h⟩ := call_write he hcall
    exact ⟨result, e', heq, happends h⟩
  · intro hcall
    by_cases hcount : (r.argument 2).toNat ≤ Call.maxBuffers
    · obtain ⟨result, e', heq, h⟩ := call_writeGathered he hcall hcount
      simp only [if_neg (Nat.not_lt.mpr hcount)]
      exact ⟨result, e', heq, happends h⟩
    · have hlt := Nat.lt_of_not_le hcount
      simp only [if_pos hlt]
      exact ⟨_, _, call_writeGathered_of_lt hcall hlt e, rfl, rfl⟩

/-! ### Requests to open a file -/

/-- A request asks for the file at a place to be opened, and a descriptor is free for it: the path
is at its address, is meant in the working directory, and leads to the place; the flags have an
access mode. -/
structure AsksFor (c : Caller) (r : SyscallRequest) (flags : Word) (text : String) (place : Path) :
    Prop where
  opening : ∃ directory a, opening? r = some (directory, a, flags) ∧
    (directory = Call.workingDirectory ∨ text.startsWith "/" = true) ∧
    Ends (Call.loadPath a) c text c
  mode : flags.toNat % 4 ≠ 3
  leads : c.kernel.directory.LeadsTo text place
  free : ¬c.kernel.descriptors.Full

theorem AsksFor.call {text : String} (h : c.AsksFor r flags text place) :
    ∃ result c', c.call r = (.ofWord result, c') ∧ c.OpensFile place flags result c' := by
  obtain ⟨directory, a, hr, hdirectory, htext⟩ := h.opening
  obtain ⟨result, c', hrun, hopens⟩ := Call.run_openText_of_leadsTo h.leads h.free flags
  refine ⟨result, c', call_of_run_openAt hr ?_, hopens⟩
  have hinside : ¬(directory ≠ Call.workingDirectory ∧ (!text.startsWith "/") = true) := by
    grind
  rw [Call.run_openAt_of_text htext, if_neg hinside, if_neg h.mode, hrun]

section Outcomes

variable {result : Except Errno Word} {text : String}

/-- A call to open a file that is refused has one of two reasons, and changes nothing. -/
theorem OpensFile.refusal (h : c.OpensFile place flags result c')
    (hflags : contradict flags = false) :
    let old := c.kernel.directory.contents? place
    (result = .error .enoent ↔ old = none ∧ creates flags = false) ∧
    (result = .error .eexist ↔ old ≠ none ∧ creates flags = true ∧ excludes flags = true) ∧
    ∀ e, result = .error e → (e = .enoent ∨ e = .eexist) ∧ c' = c := by
  intro old
  cases h with
  | contradicting hcontradict => exact absurd hcontradict (hflags ▸ Bool.false_ne_true)
  | refused _ hcontents =>
    rcases contents?_eq_none_iff.mp hcontents with ⟨hnone, hcreates⟩ | ⟨hsome, hexcludes⟩
    · have hresult : (if old.isSome = true then Errno.eexist else .enoent) = .enoent := by
        rw [show old = none from hnone]
        rfl
      rw [hresult]
      refine ⟨iff_of_true rfl ⟨hnone, hcreates⟩, iff_of_false nofun fun h ↦ h.1 hnone, ?_⟩
      rintro e he
      exact ⟨.inl (Except.error.inj he).symm, rfl⟩
    · have hresult : (if old.isSome = true then Errno.eexist else .enoent) = .eexist :=
        if_pos (Option.isSome_iff_ne_none.mpr hsome)
      rw [hresult]
      refine ⟨iff_of_false nofun fun h ↦ hsome h.1, iff_of_true rfl ⟨hsome, hexcludes⟩, ?_⟩
      rintro e he
      exact ⟨.inr (Except.error.inj he).symm, rfl⟩
  | opened _ contents hcontents =>
    have hopens := mt contents?_eq_none_iff.mpr (hcontents ▸ Option.some_ne_none contents)
    rw [not_or] at hopens
    exact ⟨iff_of_false nofun hopens.1, iff_of_false nofun hopens.2, nofun⟩

/-- A call to open a file that succeeds. -/
theorem OpensFile.success (h : c.OpensFile place flags (.ok w) c') (hm : c.memory.WellFormed)
    (hleads : c.kernel.directory.LeadsTo text place) :
    c.kernel.descriptors.LowestFree w ∧
    c'.kernel.descriptors.get? w = some (.file (.ofFlags place flags)) ∧
    c.kernel.directory.PutAt place (if writes flags && truncates flags then []
      else (c.kernel.directory.contents? place).getD []) c'.kernel.directory ∧
    c'.kernel.directory.load? text = c'.kernel.directory.contents? place ∧
    (writes flags = true → appends flags = true → c'.KeepsAppending w place) := by
  cases h with
  | opened _ contents hcontents _ hw files hfiles =>
    rw [← eq_of_contents? hcontents]
    have hdescriptor {object : OpenObject} :
        (c.kernel.descriptors.set w.toNat object).get? w = some object := by
      rw [DescriptorTable.get?_set, if_pos rfl]
    have hpath := hleads.grows (hfiles.grows hleads.file)
      fun hnode ↦ nomatch (Directory.contents?_eq_some_iff.mp hfiles.file).symm.trans hnode
    refine ⟨hw, hdescriptor, hfiles, (hpath.load?_eq hfiles.file).trans hfiles.file.symm, ?_⟩
    exact fun hwrites happends ↦ keepsAppending (c := { c with kernel := { c.kernel with
      directory := files
      descriptors := c.kernel.descriptors.set w.toNat (.file (.ofFlags place flags)) } })
      hm hdescriptor hwrites happends hfiles.file

end Outcomes

/-- A process has any files and descriptors and any memory that a history can lead to; then anything
happens in it, until a request asks for the file at a place to be opened, while a descriptor is
free. If the flags contradict each other, then it fails as an invalid request, whether or not the
file is there, and nothing changes. Otherwise it fails because there is no such file just if this is
so and the file is not to be made, and because there is one just if this is so and the file has to
be made; nothing changes then either. In all other cases it succeeds: the lowest descriptor that was
free refers to the file, which has what it had, or nothing if it is new or is opened for writing and
to be emptied; no other file or directory has changed. If the file is opened for writing and to be
appended to, then all that is ever written to the descriptor, whatever else happens until it is
closed, lands behind what is in the file at that time. -/
theorem open_file_after_events (windows : Nat → MapWindow) (history : List Action) (k : Nat)
    (kernel : Kernel) (thread : Thread) (events : List Event) (r : SyscallRequest) (flags : Word)
    (text : String) (place : Path) :
    let begun : Caller := ⟨kernel, ((World.start windows).after history).memory k, thread⟩
    let c := begun.after events
    c.AsksFor r flags text place →
    let old := c.kernel.directory.contents? place
    ∃ result c', c.call r = (.ofWord result, c') ∧
      (contradict flags = true → result = .error .einval ∧ c' = c) ∧
      (contradict flags = false →
        (result = .error .enoent ↔ old = none ∧ creates flags = false) ∧
        (result = .error .eexist ↔ old ≠ none ∧ creates flags = true ∧ excludes flags = true) ∧
        (∀ e, result = .error e → (e = .enoent ∨ e = .eexist) ∧ c' = c) ∧
        ∀ w, result = .ok w →
          c.kernel.descriptors.LowestFree w ∧
          c'.kernel.descriptors.get? w = some (.file (.ofFlags place flags)) ∧
          c.kernel.directory.PutAt place
            (if writes flags && truncates flags then [] else old.getD []) c'.kernel.directory ∧
          c'.kernel.directory.load? text = c'.kernel.directory.contents? place ∧
          (writes flags = true → appends flags = true → c'.KeepsAppending w place)) := by
  intro begun c h old
  have hbegun : begun.memory.WellFormed := (World.wellFormed_after windows history).memory k
  have hm : c.memory.WellFormed := wellFormed_after hbegun events
  obtain ⟨result, c', hcall, hopens⟩ := h.call
  refine ⟨result, c', hcall, ?_⟩
  constructor
  · intro hflags
    cases hopens with
    | contradicting => exact ⟨rfl, rfl⟩
    | refused hnot => exact absurd hflags (hnot ▸ Bool.false_ne_true)
    | opened hnot => exact absurd hflags (hnot ▸ Bool.false_ne_true)
  · intro hflags
    obtain ⟨hmissing, hpresent, hunchanged⟩ := hopens.refusal hflags
    refine ⟨hmissing, hpresent, hunchanged, ?_⟩
    rintro w rfl
    exact hopens.success hm h.leads

/-- Pages with the path `f`. -/
def pathPages : List Action :=
  [.request 0 (.map 0x2000 0x1000 .readWrite .anonymous), .request 0 (.poke 0x2000 [0x66])]

/-- A process with this path, in whose working directory there is a file `f` with three bytes. No
file can be made at the root. -/
def holdingFile : Caller where
  kernel :=
    { heap := .ofLimit 0x10000 0
      directory :=
        { entries := [(["home"], .directory), (["home", "f"], .file [0x6f, 0x6c, 0x64])]
          working := ["home"]
          locked := [[]] } }
  memory := ((World.start fun _ ↦ {}).after pathPages).memory 0
  thread := { tid := 1, registers := .start 0x1000 0 }

/-- A call to open the file at the path. -/
def openingFile (flags : Word) : SyscallRequest where
  number := 2
  arguments := #v[0x2000, flags, 0, 0, 0, 0]

theorem asksFor_openingFile (hmode : flags.toNat % 4 ≠ 3) :
    holdingFile.AsksFor (openingFile flags) flags "f" ["home", "f"] := by
  have hstring : holdingFile.memory.readString 0x2000 Directory.maxPath = .ok [0x66] := by
    decide +kernel
  have htext : Ends (Call.loadPath 0x2000) holdingFile (Text.Utf8.decodeLenient [0x66])
      holdingFile := Call.ends_loadPath hstring (by decide) (by decide)
  have hdecoded : Text.Utf8.decodeLenient [0x66] = "f" := by decide +kernel
  rw [hdecoded] at htext
  have hnames : Directory.names "f" = [] ++ ["f"] := by decide +kernel
  refine ⟨⟨Call.workingDirectory, 0x2000, rfl, .inl rfl, htext⟩, hmode, ?_, ?_⟩
  · refine ⟨by decide +kernel, by decide +kernel, ⟨[], ["home"], "f", hnames, ?_, ?_⟩, ?_⟩
    · decide +kernel
    · exact ⟨by decide +kernel, by decide +kernel, by decide +kernel, by decide +kernel, rfl⟩
    · decide +kernel
  · exact fun hfull ↦ hfull 3 (by decide) (by decide +kernel)

/-- The file is opened for writing at its end. -/
theorem open_file_holdingFile : ∃ w,
    (holdingFile.call (openingFile 0x401)).1 = .answer (.ok w) ∧
      (holdingFile.call (openingFile 0x401)).2.KeepsAppending w ["home", "f"] := by
  obtain ⟨result, c', hcall, -, hopens⟩ := open_file_after_events (fun _ ↦ {}) pathPages 0
    holdingFile.kernel holdingFile.thread [] (openingFile 0x401) 0x401 "f" ["home", "f"]
    (asksFor_openingFile (by decide))
  obtain ⟨hmissing, hpresent, hrefused, hopened⟩ := hopens (by decide)
  change holdingFile.call (openingFile 0x401) = _ at hcall
  rw [hcall]
  cases result with
  | error e =>
    rcases (hrefused e rfl).1 with rfl | rfl
    · exact absurd (hmissing.mp rfl).1 (by decide +kernel)
    · exact absurd (hpresent.mp rfl).2.1 (by decide)
  | ok w =>
    obtain ⟨-, -, -, -, happends⟩ := hopened w rfl
    exact ⟨w, rfl, happends (by decide) (by decide)⟩

/-- A file that is there, and may be there, is not opened for writing if it is to be emptied and
appended to. -/
theorem not_open_file_emptied :
    holdingFile.AsksFor (openingFile 0x601) 0x601 "f" ["home", "f"] ∧
      holdingFile.kernel.directory.contents? ["home", "f"] = some [0x6f, 0x6c, 0x64] ∧
      excludes 0x601 = false ∧
      holdingFile.call (openingFile 0x601) =
        (.answer (.error Errno.einval.number), holdingFile) := by
  have hasks : holdingFile.AsksFor (openingFile 0x601) 0x601 "f" ["home", "f"] :=
    asksFor_openingFile (by decide)
  refine ⟨hasks, by decide +kernel, by decide, ?_⟩
  obtain ⟨result, c', hcall, hopens⟩ := hasks.call
  cases hopens with
  | contradicting => exact hcall
  | refused hflags => exact absurd hflags (by decide)
  | opened hflags => exact absurd hflags (by decide)

end Caller

end LongMode.Linux
