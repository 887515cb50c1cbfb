import LongMode.Proofs.Linux.Directory
import LongMode.Proofs.Linux.Transfers

/-!
Calls that change the table of descriptors: opening, positioning and closing.

* What the table refers to after a change is said descriptor by descriptor
  (`DescriptorTable.get?_set`, `DescriptorTable.get?_erase`); new files go to the lowest descriptor
  that is free (`DescriptorTable.lowestFree?_cases`).
* `Caller.Opens`, `Caller.Repositions` and `Caller.Closes` say all that these calls can come to. Of
  a call to open a file, what comes before the file is looked for is split off
  (`Call.run_openAt_of_text`).
-/

set_option autoImplicit false
set_option relaxedAutoImplicit false

namespace LongMode.Linux

/-! ### The table of descriptors -/

namespace DescriptorTable

/-- A descriptor is free, and all below it are open. -/
structure LowestFree (t : DescriptorTable) (w : Word) : Prop where
  /-- It is a descriptor. -/
  limit : w.toNat < DescriptorTable.limit
  /-- It is not open. -/
  free : t.get? w = none
  /-- Those below it are. -/
  lowest (v : Word) : v < w → t.get? v ≠ none

/-- All descriptors are open. -/
def Full (t : DescriptorTable) : Prop :=
  ∀ w : Word, w.toNat < limit → t.get? w ≠ none

variable {t : DescriptorTable}

theorem get?_set (t : DescriptorTable) (n : Nat) (object : OpenObject) (w : Word) :
    (t.set n object).get? w = if n = w.toNat then some object else t.get? w := by
  simp [get?, set, Std.ExtTreeMap.getElem?_insert]

theorem get?_erase (t : DescriptorTable) (closed w : Word) :
    (t.erase closed).get? w = if closed = w then none else t.get? w := by
  simp [get?, erase, Std.ExtTreeMap.getElem?_erase, ← BitVec.toNat_inj]

theorem get?_standard (w : Word) : standard.get? w =
    if 2 = w.toNat then some .errors else if 1 = w.toNat then some .output
    else if 0 = w.toNat then some .input else none := by
  have hsteps : standard = (((⟨∅⟩ : DescriptorTable).set 0 .input).set 1 .output).set 2 .errors :=
    rfl
  have hempty : (⟨∅⟩ : DescriptorTable).get? w = none := Std.ExtTreeMap.getElem?_empty
  simp only [hsteps, get?_set, hempty]

/-- Either there is a lowest free descriptor, or all are open. -/
theorem lowestFree?_cases (t : DescriptorTable) :
    (∃ w : Word, t.lowestFree? = some w.toNat ∧ t.LowestFree w) ∨
      t.lowestFree? = none ∧ t.Full := by
  have hcontains (w : Word) : t.objects.contains w.toNat = (t.get? w).isSome :=
    Std.ExtTreeMap.contains_eq_isSome_getElem?
  cases h : t.lowestFree? with
  | none =>
    refine .inr ⟨rfl, fun w hw hfree ↦ ?_⟩
    have hopen := List.find?_range_eq_none.mp h w.toNat hw
    rw [Bool.not_not, hcontains, hfree] at hopen
    cases hopen
  | some n =>
    obtain ⟨hfree, hlimit, hlowest⟩ := List.find?_range_eq_some.mp h
    rw [List.mem_range] at hlimit
    have hn : n = (BitVec.ofNat 64 n).toNat := by
      rw [BitVec.toNat_ofNat, Nat.mod_eq_of_lt (Nat.lt_trans hlimit (by decide))]
    rw [hn] at hfree hlimit hlowest ⊢
    rw [hcontains, Bool.not_eq_true', Option.isSome_eq_false_iff, Option.isNone_iff_eq_none]
      at hfree
    refine .inl ⟨_, rfl, hlimit, hfree, fun v hv hnone ↦ ?_⟩
    have hopen := hlowest v.toNat hv
    rw [Bool.not_not, hcontains, hnone] at hopen
    cases hopen

end DescriptorTable

/-! ### Opening -/

namespace OpenFlags

/-- The file is to be read; the access mode is in the two lowest bits. -/
def reads (flags : Word) : Bool :=
  flags.toNat % 4 ≠ 1

/-- The file is to be written. -/
def writes (flags : Word) : Bool :=
  flags.toNat % 4 ≠ 0

/-- The file is to be made if it does not exist. -/
def creates (flags : Word) : Bool :=
  Call.openFlag flags 6

/-- A file that is to be made must not exist. -/
def excludes (flags : Word) : Bool :=
  Call.openFlag flags 7

/-- The contents of the file are to be dropped, which matters only if it is to be written. -/
def truncates (flags : Word) : Bool :=
  Call.openFlag flags 9

/-- All that is written is to go to the end of the file. -/
def appends (flags : Word) : Bool :=
  Call.openFlag flags 10

end OpenFlags

open OpenFlags

/-- A file as flags say that it is opened. -/
def OpenFile.ofFlags (place : Path) (flags : Word) : OpenFile where
  place := place
  readable := reads flags
  writable := writes flags
  append := appends flags

/-- How a file is opened once it need not be made for reading any more. -/
def Directory.OpenRequest.ofFlags (flags : Word) : Directory.OpenRequest where
  read := reads flags
  write := writes flags
  append := appends flags
  truncate := writes flags && truncates flags
  creation :=
    if !(creates flags && writes flags) then .never else if excludes flags then .always
    else .ifMissing

namespace Call

/-- Put a file at the lowest free descriptor. -/
def install (f : OpenFile) : Call Word := do
  match (← kernel).descriptors.lowestFree? with
  | none => throw .emfile
  | some free =>
    modifyKernel fun k => { k with descriptors := k.descriptors.set free (.file f) }
    return BitVec.ofNat 64 free

/-- Open the file at the end of a path. -/
def openText (text : String) (flags : Word) : Call Word := do
  if creates flags && !writes flags then createForReading text (excludes flags)
  let place ← openInDirectory (.ofFlags flags) text
  install (.ofFlags place flags)

variable {c : Caller} {directory flags : Word} {a : Address} {text : String}

/-- The checks between loading the path and looking for the file. -/
theorem run_openAt_of_text (htext : Ends (loadPath a) c text c) :
    (openAt directory a flags).run.run c =
      if directory ≠ workingDirectory ∧ !text.startsWith "/" then
        (.error (if (c.kernel.descriptors.get? directory).isSome then .enotdir else .ebadf), c)
      else if flags.toNat % 4 = 3 then (.error .einval, c)
      else (openText text flags).run.run c := by
  rw [openAt, htext.run_bind]
  extract_lets create exclusive openWith chooseMode
  have hopen : openWith (reads flags, writes flags) = openText text flags := by
    have hcreate : (create = true ∧ (!writes flags) = true) ↔
        (creates flags && !writes flags) = true := by
      rw [Bool.and_eq_true]
      rfl
    unfold openText
    by_cases h : (creates flags && !writes flags) = true
    · rw [if_pos h]
      refine (if_pos (hcreate.mpr h)).trans ?_
      refine bind_congr fun _ ↦ bind_congr fun place ↦ bind_congr fun k ↦ ?_
      cases k.descriptors.lowestFree? <;> rfl
    · rw [if_neg h]
      refine (if_neg (mt hcreate.mp h)).trans ?_
      refine bind_congr fun place ↦ bind_congr fun k ↦ ?_
      cases k.descriptors.lowestFree? <;> rfl
  rw [← hopen]
  clear_value openWith
  split
  · rw [(ends_kernel c).run_bind]
    rfl
  unfold chooseMode
  unfold reads writes
  obtain h | h | h | h : flags.toNat % 4 = 0 ∨ flags.toNat % 4 = 1 ∨ flags.toNat % 4 = 2 ∨
      flags.toNat % 4 = 3 := by omega
  all_goals
    rw [h]
    rfl

end Call

namespace Caller

/-- The caller with other files. -/
def withFiles (c : Caller) (files : Directory) : Caller :=
  { c with kernel := { c.kernel with directory := files } }

/-- What a call to open a file comes to, if its path is at an address. -/
inductive Opens (c : Caller) (a : Address) (flags : Word) : Except Errno Word → Caller → Prop
  /-- What the path leads to is open, in the access mode of the flags, at the lowest descriptor that
  was free. -/
  | opened (text : String) (htext : Ends (Call.loadPath a) c text c)
    (hmode : flags.toNat % 4 ≠ 3) (w : Word) (hw : c.kernel.descriptors.LowestFree w)
    (files : Directory) (hfiles : c.kernel.directory.Grows files) (place : Path)
    (hplace : files.resolve text = .ok place) :
    Opens c a flags (.ok w)
      { c with kernel := { c.kernel with
        directory := files
        descriptors := c.kernel.descriptors.set w.toNat (.file (.ofFlags place flags)) } }
  /-- No descriptor is free; the file may have been made or emptied nevertheless. -/
  | full (hfull : c.kernel.descriptors.Full) (files : Directory)
    (hfiles : c.kernel.directory.Grows files) :
    Opens c a flags (.error .emfile) (c.withFiles files)
  /-- The file cannot be opened. -/
  | refused (e : Errno) (he : e ≠ .emfile) (files : Directory)
    (hfiles : c.kernel.directory.Grows files) : Opens c a flags (.error e) (c.withFiles files)

/-- A call may be refused before anything is done. -/
theorem opens_error (c : Caller) (a : Address) (flags : Word) {e : Errno} (he : e ≠ .emfile) :
    c.Opens a flags (.error e) c :=
  .refused e he c.kernel.directory (refl_of Directory.Grows _)

end Caller

theorem FileError.errno_ne_emfile (e : FileError) : e.errno ≠ .emfile := by
  cases e <;> decide

namespace Call

variable {c : Caller} {directory flags : Word} {a : Address} {text : String}

/-- The path at an address is loaded if it is neither empty nor too long. -/
theorem ends_loadPath {bytes : List UInt8}
    (h : c.memory.readString a Directory.maxPath = .ok bytes)
    (hlong : ¬Directory.maxPath ≤ bytes.length) (hempty : ¬bytes.isEmpty = true) :
    Ends (loadPath a) c (Text.Utf8.decodeLenient bytes) c := by
  have hbytes : Ends (orFail (fun _ ↦ .efault) (c.memory.readString a Directory.maxPath)) c
      bytes c := by
    rw [h]
    rfl
  rw [Ends, loadPath, (ends_get c).run_bind, hbytes.run_bind, run_guard, if_neg hlong, run_guard,
    if_neg hempty]
  rfl

/-- The path at an address is loaded, or cannot be. -/
theorem run_loadPath_cases (c : Caller) (a : Address) :
    (∃ text, Ends (loadPath a) c text c) ∨
      ∃ e, e ≠ .emfile ∧ (loadPath a).run.run c = (.error e, c) := by
  cases hstring : c.memory.readString a Directory.maxPath with
  | error fault =>
    refine .inr ⟨.efault, by decide, ?_⟩
    rw [loadPath, (ends_get c).run_bind, hstring]
    rfl
  | ok bytes =>
    have hbytes : Ends (orFail (fun _ ↦ .efault) (c.memory.readString a Directory.maxPath)) c
        bytes c := by
      rw [hstring]
      rfl
    by_cases hlong : Directory.maxPath ≤ bytes.length
    · refine .inr ⟨.enametoolong, by decide, ?_⟩
      rw [loadPath, (ends_get c).run_bind, hbytes.run_bind, run_guard, if_pos hlong]
    by_cases hempty : bytes.isEmpty = true
    · refine .inr ⟨.enoent, by decide, ?_⟩
      rw [loadPath, (ends_get c).run_bind, hbytes.run_bind, run_guard, if_neg hlong, run_guard,
        if_pos hempty]
    · exact .inl ⟨_, ends_loadPath hstring hlong hempty⟩

/-- A file is made, or is there already, or cannot be made. -/
theorem run_createForReading_cases (c : Caller) (text : String) (exclusive : Bool) :
    (∃ files, Ends (createForReading text exclusive) c () (c.withFiles files) ∧
      c.kernel.directory.Grows files) ∨
    ∃ e, e ≠ .emfile ∧ (createForReading text exclusive).run.run c = (.error e, c) := by
  simp only [Ends]
  rw [createForReading, (ends_kernel c).run_bind]
  split
  next place files hopen =>
    exact .inl ⟨files, rfl, (Directory.opened_openPath hopen).1⟩
  next =>
    cases exclusive with
    | true => exact .inr ⟨.eexist, by decide, rfl⟩
    | false => exact .inl ⟨c.kernel.directory, rfl, refl_of Directory.Grows _⟩
  next e _ _ => exact .inr ⟨e.errno, e.errno_ne_emfile, rfl⟩

theorem run_openInDirectory (c : Caller) (r : Directory.OpenRequest) (text : String) :
    (openInDirectory r text).run.run c =
      match c.kernel.directory.openPath r text with
      | .ok (place, files) => (.ok place, c.withFiles files)
      | .error e => (.error e.errno, c) := by
  rw [openInDirectory, (ends_kernel c).run_bind]
  cases c.kernel.directory.openPath r text <;> rfl

theorem run_install (c : Caller) (f : OpenFile) :
    (install f).run.run c =
      match c.kernel.descriptors.lowestFree? with
      | some free => (.ok (BitVec.ofNat 64 free), { c with kernel := { c.kernel with
          descriptors := c.kernel.descriptors.set free (.file f) } })
      | none => (.error .emfile, c) := by
  rw [install, (ends_kernel c).run_bind]
  cases c.kernel.descriptors.lowestFree? <;> rfl

/-- What is found goes to the lowest free descriptor. -/
theorem run_openAndInstall_of_eq_ok {files files' : Directory} {place : Path}
    (hopen : files.openPath (.ofFlags flags) text = .ok (place, files')) :
    (do
        let place ← openInDirectory (.ofFlags flags) text
        install (.ofFlags place flags) : Call Word).run.run (c.withFiles files) =
      match c.kernel.descriptors.lowestFree? with
      | some free => (.ok (BitVec.ofNat 64 free), { c with kernel := { c.kernel with
          directory := files'
          descriptors := c.kernel.descriptors.set free (.file (.ofFlags place flags)) } })
      | none => (.error .emfile, c.withFiles files') := by
  have hrun := run_openInDirectory (c.withFiles files) (.ofFlags flags) text
  simp only [Caller.withFiles, hopen] at hrun
  have hends : Ends (openInDirectory (.ofFlags flags) text) (c.withFiles files) place
    (c.withFiles files') := hrun
  rw [hends.run_bind, run_install]
  simp only [Caller.withFiles]

/-- Of the files that a path leads to, once they have been made for reading, one is opened. -/
theorem run_openAndInstall (htext : Ends (loadPath a) c text c) (hmode : flags.toNat % 4 ≠ 3)
    {files : Directory} (hfiles : c.kernel.directory.Grows files) :
    ∃ result c', (do
        let place ← openInDirectory (.ofFlags flags) text
        install (.ofFlags place flags) : Call Word).run.run (c.withFiles files) = (result, c') ∧
      c.Opens a flags result c' := by
  cases hopen : files.openPath (.ofFlags flags) text with
  | error e =>
    have hrun := run_openInDirectory (c.withFiles files) (.ofFlags flags) text
    simp only [Caller.withFiles, hopen] at hrun
    exact ⟨_, _, run_bind_of_error hrun, .refused _ e.errno_ne_emfile files hfiles⟩
  | ok opened =>
    obtain ⟨place, files'⟩ := opened
    obtain ⟨hgrows, hplace⟩ := Directory.opened_openPath hopen
    have hfiles' := trans_of Directory.Grows hfiles hgrows
    rw [run_openAndInstall_of_eq_ok hopen]
    rcases c.kernel.descriptors.lowestFree?_cases with ⟨w, hfree, hw⟩ | ⟨hnone, hfull⟩
    · rw [hfree]
      refine ⟨.ok w, _, ?_, .opened text htext hmode w hw files' hfiles' place hplace⟩
      simp only [BitVec.ofNat_toNat, BitVec.setWidth_eq]
    · rw [hnone]
      exact ⟨_, _, rfl, .full hfull files' hfiles'⟩

theorem run_openText (htext : Ends (loadPath a) c text c) (hmode : flags.toNat % 4 ≠ 3) :
    ∃ result c', (openText text flags).run.run c = (result, c') ∧ c.Opens a flags result c' := by
  unfold openText
  split
  · rcases run_createForReading_cases c text (excludes flags) with
      ⟨files, hends, hfiles⟩ | ⟨e, he, hrun⟩
    · rw [hends.run_bind]
      exact run_openAndInstall htext hmode hfiles
    · exact ⟨_, c, run_bind_of_error hrun, c.opens_error a flags he⟩
  · exact run_openAndInstall htext hmode (refl_of Directory.Grows _)

theorem run_openAt (c : Caller) (directory : Word) (a : Address) (flags : Word) :
    ∃ result c', (openAt directory a flags).run.run c = (result, c') ∧
      c.Opens a flags result c' := by
  rcases run_loadPath_cases c a with ⟨text, htext⟩ | ⟨e, he, hrun⟩
  · rw [run_openAt_of_text htext]
    split
    · refine ⟨_, c, rfl, c.opens_error a flags ?_⟩
      split <;> decide
    split
    · exact ⟨_, c, rfl, c.opens_error a flags (by decide)⟩
    next hmode => exact run_openText htext hmode
  · exact ⟨_, c, run_bind_of_error hrun, c.opens_error a flags he⟩

end Call

/-! ### Positioning and closing -/

namespace Caller

/-- What a call to move the position of a descriptor comes to. -/
inductive Repositions (c : Caller) (descriptor offset base : Word) :
    Except Errno Word → Caller → Prop
  /-- The descriptor is not open: nothing changes. -/
  | notOpen (ho : c.kernel.descriptors.get? descriptor = none) :
    Repositions c descriptor offset base (.error .ebadf) c
  /-- Streams have no position: nothing changes. -/
  | stream (o : OpenObject) (ho : c.kernel.descriptors.get? descriptor = some o)
    (hstream : ∀ f, o ≠ .file f) : Repositions c descriptor offset base (.error .espipe) c
  /-- The position is so far from its base. -/
  | moved (f : OpenFile) (ho : c.kernel.descriptors.get? descriptor = some (.file f))
    (start position : Nat) (hstart : f.base? c.kernel.directory base.toNat = some start)
    (hposition : (position : Int) = start + offset.toInt)
    (hlimit : position < OpenFile.positionLimit) :
    Repositions c descriptor offset base (.ok (BitVec.ofNat 64 position))
      { c with kernel := { c.kernel with
        descriptors := c.kernel.descriptors.set descriptor.toNat (.file { f with position }) } }
  /-- There is no such base, or no such position: nothing changes. -/
  | refused (f : OpenFile) (ho : c.kernel.descriptors.get? descriptor = some (.file f))
    (h : ∀ start position : Nat, f.base? c.kernel.directory base.toNat = some start →
      (position : Int) = start + offset.toInt → OpenFile.positionLimit ≤ position) :
    Repositions c descriptor offset base (.error .einval) c

/-- What a call to close a descriptor comes to. -/
inductive Closes (c : Caller) (descriptor : Word) : Except Errno Word → Caller → Prop
  /-- It is not open any more. -/
  | closed (o : OpenObject) (ho : c.kernel.descriptors.get? descriptor = some o) :
    Closes c descriptor (.ok 0)
      { c with kernel := { c.kernel with descriptors := c.kernel.descriptors.erase descriptor } }
  /-- It was not open: nothing changes. -/
  | notOpen (ho : c.kernel.descriptors.get? descriptor = none) :
    Closes c descriptor (.error .ebadf) c

end Caller

namespace Call

theorem run_reposition (c : Caller) (descriptor offset base : Word) :
    ∃ result c', (reposition descriptor offset base).run.run c = (result, c') ∧
      c.Repositions descriptor offset base result c' := by
  cases ho : c.kernel.descriptors.get? descriptor with
  | none => exact ⟨_, c, run_bind_of_error (run_object_of_eq_none ho), .notOpen ho⟩
  | some o =>
    rw [reposition, (ends_object ho).run_bind]
    cases o with
    | input => exact ⟨_, c, rfl, .stream _ ho nofun⟩
    | output => exact ⟨_, c, rfl, .stream _ ho nofun⟩
    | errors => exact ⟨_, c, rfl, .stream _ ho nofun⟩
    | file f =>
      dsimp only
      rw [(ends_kernel c).run_bind]
      cases hstart : f.base? c.kernel.directory base.toNat with
      | none => exact ⟨_, c, rfl, .refused f ho fun start _ h ↦ nomatch hstart.symm.trans h⟩
      | some start =>
        dsimp only
        rw [OpenFile.seek]
        split
        next h =>
          refine ⟨_, _, rfl, .moved f ho start _ hstart (Int.toNat_of_nonneg h.1) ?_⟩
          exact (Int.toNat_lt h.1).mpr h.2
        next h =>
          refine ⟨_, c, rfl, .refused f ho fun start' position hstart' hposition ↦ ?_⟩
          obtain rfl := Option.some.inj (hstart.symm.trans hstart')
          omega

theorem run_close (c : Caller) (descriptor : Word) :
    ∃ result c', (close descriptor).run.run c = (result, c') ∧ c.Closes descriptor result c' := by
  cases ho : c.kernel.descriptors.get? descriptor with
  | none => exact ⟨_, c, run_bind_of_error (run_object_of_eq_none ho), .notOpen ho⟩
  | some o =>
    rw [close, (ends_object ho).run_bind]
    exact ⟨.ok 0, _, rfl, .closed o ho⟩

end Call

namespace Caller

/-- The directory, the address of the path and the flags of a call to open a file. -/
def opening? (r : SyscallRequest) : Option (Word × Address × Word) :=
  match r.syscall? with
  | some .openFile => some (Call.workingDirectory, r.argument 0, r.argument 1)
  | some .openAt => some (r.argument 0, r.argument 1, r.argument 2)
  | _ => none

variable {c : Caller} {r : SyscallRequest}

theorem call_of_run_openAt {directory a flags : Word} (hr : opening? r = some (directory, a, flags))
    {result : Except Errno Word} {c' : Caller}
    (hrun : (Call.openAt directory a flags).run.run c = (result, c')) :
    c.call r = (.ofWord result, c') := by
  unfold opening? at hr
  split at hr
  next hcall =>
    cases hr
    exact call_of_run hcall hrun rfl
  next hcall =>
    cases hr
    exact call_of_run hcall hrun rfl
  next => cases hr

theorem call_open {directory a flags : Word} (hr : opening? r = some (directory, a, flags))
    (c : Caller) : ∃ result c', c.call r = (.ofWord result, c') ∧ c.Opens a flags result c' := by
  obtain ⟨result, c', hrun, h⟩ := Call.run_openAt c directory a flags
  exact ⟨result, c', call_of_run_openAt hr hrun, h⟩

theorem call_reposition (hr : r.syscall? = some .reposition) (c : Caller) :
    ∃ result c', c.call r = (.ofWord result, c') ∧
      c.Repositions (r.argument 0) (r.argument 1) (r.argument 2) result c' := by
  obtain ⟨result, c', hrun, h⟩ :=
    Call.run_reposition c (r.argument 0) (r.argument 1) (r.argument 2)
  exact ⟨result, c', call_of_run hr hrun rfl, h⟩

theorem call_close (hr : r.syscall? = some .close) (c : Caller) :
    ∃ result c', c.call r = (.ofWord result, c') ∧ c.Closes (r.argument 0) result c' := by
  obtain ⟨result, c', hrun, h⟩ := Call.run_close c (r.argument 0)
  exact ⟨result, c', call_of_run hr hrun rfl, h⟩

end Caller

end LongMode.Linux
