import LongMode.Linux.Directory
import LongMode.Proofs.Outcomes
import Mathlib.Data.List.Basic
import Mathlib.Order.Defs.Unbundled

/-!
What opening and writing files makes of a tree of them. Nothing disappears from it
(`Directory.Grows`): a directory stays one, and a file a file, though its contents may change.
Therefore a path keeps leading where it leads (`Directory.Grows.walk`), and a path that was opened
leads to what was opened (`Directory.opened_openPath`).

A path from the root or from the working directory to a place in a directory where files can be
made, with a file or nothing there yet (`Directory.LeadsTo`), is opened there, unless the request
contradicts itself (`Directory.LeadsTo.openPath_eq`).
-/

set_option autoImplicit false
set_option relaxedAutoImplicit false

namespace LongMode.Linux

namespace Directory

variable {d d' : Directory} {path q : Path} {node : Node}

/-! ### The view of a tree -/

@[simp] theorem node?_nil (d : Directory) : d.node? [] = some .directory := rfl

theorem node?_put_self (hpath : path ≠ []) : (d.put path node).node? path = some node := by
  simp [node?, put, hpath]

theorem node?_put_of_ne (h : q ≠ path) : (d.put path node).node? q = d.node? q := by
  have hlookup (entries : List (Path × Node)) :
      (entries.filter (·.1 ≠ path)).lookup q = entries.lookup q := by
    induction entries with
    | nil => rfl
    | cons entry entries ih =>
      obtain ⟨place, other⟩ := entry
      by_cases hplace : place = path
      · subst hplace
        simp [List.lookup_cons, beq_eq_false_iff_ne.mpr h, ← ih]
      · simp only [List.filter_cons, hplace, ne_eq, not_false_eq_true, decide_true, if_true,
          List.lookup_cons, ih]
  simp only [node?, put, List.lookup_cons, beq_eq_false_iff_ne.mpr h, hlookup]

theorem contents?_eq_some_iff {contents : List UInt8} :
    d.contents? path = some contents ↔ d.node? path = some (.file contents) := by
  rw [contents?]
  cases d.node? path with
  | none => simp
  | some node => cases node <;> simp

/-- What is no directory is not the root of the tree. -/
theorem ne_nil_of_node?_ne (h : d.node? path ≠ some .directory) : path ≠ [] := by
  rintro rfl
  exact h rfl

/-! ### Trees that grow -/

/-- Directories stay directories, and files files, though their contents may change. -/
structure Grows (d d' : Directory) : Prop where
  /-- Paths start where they started. -/
  working_eq : d'.working = d.working
  /-- Files can be made where they could. -/
  locked_eq : d'.locked = d.locked
  /-- A directory stays one. -/
  directory {path : Path} : d.node? path = some .directory → d'.node? path = some .directory
  /-- A file stays one. -/
  file {path : Path} {contents : List UInt8} : d.node? path = some (.file contents) →
    ∃ contents', d'.node? path = some (.file contents')

instance isPreorder_grows : IsPreorder Directory Grows where
  refl _ := ⟨rfl, rfl, id, fun h ↦ ⟨_, h⟩⟩
  trans _ _ _ h h' := by
    refine ⟨h'.working_eq.trans h.working_eq, h'.locked_eq.trans h.locked_eq,
      fun hnode ↦ h'.directory (h.directory hnode), fun hnode ↦ ?_⟩
    obtain ⟨contents, hcontents⟩ := h.file hnode
    exact h'.file hcontents

/-- A tree in which a file is at a place, and everything else is as in another tree. -/
structure PutAt (d : Directory) (path : Path) (contents : List UInt8) (d' : Directory) : Prop where
  /-- The file. -/
  file : d'.contents? path = some contents
  /-- Everything else. -/
  others (q : Path) : q ≠ path → d'.node? q = d.node? q
  working_eq : d'.working = d.working
  locked_eq : d'.locked = d.locked

/-- A file may stay as it is. -/
theorem putAt_self {contents : List UInt8} (h : d.contents? path = some contents) :
    d.PutAt path contents d :=
  ⟨h, fun _ _ ↦ rfl, rfl, rfl⟩

theorem putAt_put (hpath : path ≠ []) (contents : List UInt8) :
    d.PutAt path contents (d.put path (.file contents)) :=
  ⟨contents?_eq_some_iff.mpr (node?_put_self hpath), fun _ ↦ node?_put_of_ne, rfl, rfl⟩

/-- A file may be put where no directory is. -/
theorem PutAt.grows {contents : List UInt8} (hput : d.PutAt path contents d')
    (h : d.node? path ≠ some .directory) : d.Grows d' := by
  refine ⟨hput.working_eq, hput.locked_eq, ?_, ?_⟩
  · intro q hq
    have hne : q ≠ path := by
      rintro rfl
      exact h hq
    rw [hput.others q hne, hq]
  · intro q old hq
    by_cases hsame : q = path
    · subst hsame
      exact ⟨contents, contents?_eq_some_iff.mp hput.file⟩
    · exact ⟨old, by rw [hput.others q hsame, hq]⟩

theorem grows_put (h : d.node? path ≠ some .directory) (contents : List UInt8) :
    d.Grows (d.put path (.file contents)) :=
  (putAt_put (ne_nil_of_node?_ne h) contents).grows h

namespace Grows

variable {place place' : Path} {name text : String} {names : List String}

theorem isSome (h : d.Grows d') (hpath : (d.node? path).isSome) : (d'.node? path).isSome := by
  obtain ⟨node, hnode⟩ := Option.isSome_iff_exists.mp hpath
  cases node with
  | directory => exact Option.isSome_of_eq_some (h.directory hnode)
  | file contents =>
    obtain ⟨contents', hcontents⟩ := h.file hnode
    exact Option.isSome_of_eq_some hcontents

theorem start_eq (h : d.Grows d') (text : String) : d'.start text = d.start text := by
  rw [start, start, h.working_eq]

/-- A step of a path leads where it led. -/
theorem step (h : d.Grows d') (hstep : d.step place name = .ok place') :
    d'.step place name = .ok place' := by
  have hplace : d.node? place = some .directory := by
    refine Decidable.of_not_not fun hne ↦ ?_
    rw [Directory.step, if_pos hne] at hstep
    cases hstep
  rw [Directory.step, if_neg (not_not_intro hplace)] at hstep
  rw [Directory.step, if_neg (not_not_intro (h.directory hplace))]
  have hchild : (d.node? (place ++ [name])).isSome → (d'.node? (place ++ [name])).isSome := h.isSome
  grind

/-- A path leads where it led. -/
theorem walk (h : d.Grows d') (hwalk : d.walk place names = .ok place') :
    d'.walk place names = .ok place' := by
  induction names generalizing place with
  | nil => exact hwalk
  | cons name names ih =>
    rw [Directory.walk, List.foldlM_cons] at hwalk ⊢
    cases hstep : d.step place name with
    | error e =>
      rw [hstep] at hwalk
      cases hwalk
    | ok next =>
      rw [hstep] at hwalk
      rw [h.step hstep]
      exact ih hwalk

end Grows

/-! ### Opening -/

section Open

variable {r : OpenRequest} {place place' folder : Path} {name text : String} {slash : Bool}

/-- A step goes to a name that is there, unless the name is dots or too long. -/
theorem step_eq_ok (hfolder : d.node? folder = some .directory) (hdots : isDots name = false)
    (hlong : name.utf8ByteSize ≤ maxName) (hsome : (d.node? (folder ++ [name])).isSome) :
    d.step folder name = .ok (folder ++ [name]) := by
  rw [isDots, Bool.or_eq_false_iff, decide_eq_false_iff_not, decide_eq_false_iff_not] at hdots
  rw [step, if_neg (not_not_intro hfolder), if_neg hdots.1, if_neg hdots.2,
    if_neg (Nat.not_lt_of_le hlong), if_pos hsome]

theorem grows_openExisting (h : d.openExisting r place slash = .ok (place', d')) :
    place' = place ∧ d.Grows d' := by
  rw [openExisting] at h
  split at h
  next => cases h
  split at h
  next contents hnode =>
    have hfile : d.node? place ≠ some .directory := fun hdirectory ↦
      nomatch hnode.symm.trans hdirectory
    split at h
    next => cases h
    next =>
    obtain ⟨rfl, rfl⟩ := Prod.mk.inj (Except.ok.inj h)
    refine ⟨rfl, ?_⟩
    split
    · exact grows_put hfile []
    · exact refl_of Grows d
  next =>
    split at h
    next => cases h
    next =>
    obtain ⟨rfl, rfl⟩ := Prod.mk.inj (Except.ok.inj h)
    exact ⟨rfl, refl_of Grows d⟩
  next => cases h

theorem grows_openMissing (h : d.openMissing r folder name = .ok (place', d'))
    (hmissing : d.node? (folder ++ [name]) = none) :
    place' = folder ++ [name] ∧ d.Grows d' ∧ (d'.node? (folder ++ [name])).isSome := by
  have hnode : d.node? (folder ++ [name]) ≠ some .directory := by simp [hmissing]
  rw [openMissing] at h
  split at h
  next => cases h
  split at h
  next => cases h
  obtain ⟨rfl, rfl⟩ := Prod.mk.inj (Except.ok.inj h)
  refine ⟨rfl, grows_put hnode [], ?_⟩
  rw [node?_put_self (ne_nil_of_node?_ne hnode)]
  rfl

/-- A name that was opened leads to what was opened. -/
theorem opened_openName (h : d.openName r folder name slash = .ok (place', d')) :
    d.Grows d' ∧ d'.step folder name = .ok place' := by
  have hfolder : d.node? folder = some .directory := by
    refine Decidable.of_not_not fun hne ↦ ?_
    rw [openName, if_pos hne] at h
    cases h
  rw [openName, if_neg (not_not_intro hfolder)] at h
  split at h
  next hdots =>
    obtain ⟨next, hstep, hopen⟩ := exists_ok_of_bind h
    obtain ⟨rfl, hgrows⟩ := grows_openExisting hopen
    exact ⟨hgrows, hgrows.step hstep⟩
  next hdots =>
  rw [Bool.not_eq_true] at hdots
  split at h
  next => cases h
  split at h
  next => cases h
  next hlong =>
  rw [Nat.not_lt] at hlong
  split at h
  next hsome =>
    obtain ⟨rfl, hgrows⟩ := grows_openExisting h
    exact ⟨hgrows, step_eq_ok (hgrows.directory hfolder) hdots hlong (hgrows.isSome hsome)⟩
  next hmissing =>
    obtain ⟨rfl, hgrows, hsome⟩ := grows_openMissing h (Option.not_isSome_iff_eq_none.mp hmissing)
    exact ⟨hgrows, step_eq_ok (hgrows.directory hfolder) hdots hlong hsome⟩

/-- A path that was opened leads to what was opened. -/
theorem opened_openPath (h : d.openPath r text = .ok (place', d')) :
    d.Grows d' ∧ d'.resolve text = .ok place' := by
  rw [openPath] at h
  rw [resolve]
  split at h
  next => cases h
  split at h
  next => cases h
  split at h
  next hnames =>
    obtain ⟨rfl, hgrows⟩ := grows_openExisting h
    rw [List.getLast?_eq_none_iff.mp hnames, hgrows.start_eq]
    exact ⟨hgrows, rfl⟩
  next last hnames =>
    obtain ⟨folder, hwalk, hopen⟩ := exists_ok_of_bind h
    obtain ⟨hgrows, hstep⟩ := opened_openName hopen
    refine ⟨hgrows, ?_⟩
    have hfolder : d'.walk (d'.start text) (names text).dropLast = .ok folder := by
      rw [hgrows.start_eq]
      exact hgrows.walk hwalk
    rw [walk] at hfolder
    rw [← List.dropLast_append_getLast? last hnames, walk, List.foldlM_append, hfolder]
    exact (bind_pure _).trans hstep

end Open

/-! ### Paths to files -/

/-- A path leads to a place in a directory in which files can be made, and there is a file at the
place or nothing yet. -/
structure LeadsTo (d : Directory) (text : String) (place : Path) : Prop where
  /-- The path is not too long. -/
  length : text.utf8ByteSize < maxPath
  /-- It does not end with a slash. -/
  slash : text.endsWith "/" = false
  /-- All names but the last lead to a directory, and the last is one of a file. -/
  names : ∃ parents folder name, names text = parents ++ [name] ∧
    d.walk (d.start text) parents = .ok folder ∧ d.node? folder = some .directory ∧
    folder ∉ d.locked ∧ isDots name = false ∧ name.utf8ByteSize ≤ maxName ∧
    place = folder ++ [name]
  /-- No directory is at the place. -/
  file : d.node? place ≠ some .directory

namespace LeadsTo

variable {r : OpenRequest} {text : String} {contents : List UInt8}

/-- A path leads to the same place as long as there is no directory. -/
theorem grows (h : d.LeadsTo text path) (hgrows : d.Grows d')
    (hfile : d'.node? path ≠ some .directory) : d'.LeadsTo text path := by
  obtain ⟨parents, folder, name, hnames, hwalk, hfolder, hunlocked, hname⟩ := h.names
  refine ⟨h.length, h.slash, ⟨parents, folder, name, hnames, ?_, hgrows.directory hfolder, ?_,
    hname⟩, hfile⟩
  · rw [hgrows.start_eq]
    exact hgrows.walk hwalk
  · rw [hgrows.locked_eq]
    exact hunlocked

/-- The file at the place is what the path shows. -/
theorem load?_eq (h : d.LeadsTo text path) (hcontents : d.contents? path = some contents) :
    d.load? text = some contents := by
  obtain ⟨parents, folder, name, hnames, hwalk, hfolder, -, hdots, hlong, rfl⟩ := h.names
  have hsome : (d.node? (folder ++ [name])).isSome := by
    rw [contents?_eq_some_iff.mp hcontents]
    rfl
  have hall : d.resolve text = .ok (folder ++ [name]) := by
    rw [walk] at hwalk
    rw [resolve, hnames, walk, List.foldlM_append, hwalk]
    exact (bind_pure _).trans (step_eq_ok hfolder hdots hlong hsome)
  rw [load?, hall, h.slash]
  exact hcontents

/-- Opening goes to the place, unless the request contradicts itself. -/
theorem openPath_eq (h : d.LeadsTo text path)
    (hr : (r.append && r.truncate && decide (r.creation ≠ .always)) = false) :
    d.openPath r text =
      if (d.node? path).isSome then d.openExisting r path false
      else if r.creation = .never then .error .notFound
      else .ok (path, d.put path (.file [])) := by
  obtain ⟨parents, folder, name, hnames, hwalk, hfolder, hunlocked, hdots, hlong, rfl⟩ := h.names
  rw [openPath, hr, if_neg Bool.false_ne_true, if_neg (Nat.not_le_of_lt h.length), hnames,
    List.getLast?_concat, List.dropLast_concat]
  dsimp only
  rw [hwalk, h.slash]
  change d.openName r folder name false = _
  rw [openName, if_neg (not_not_intro hfolder), hdots, if_neg Bool.false_ne_true, Bool.and_false,
    if_neg Bool.false_ne_true, if_neg (Nat.not_lt_of_le hlong), openMissing, if_neg hunlocked]

/-- A file that is there is opened, with or without its contents, unless it has to be made. -/
theorem openPath_of_contents (h : d.LeadsTo text path)
    (hr : (r.append && r.truncate && decide (r.creation ≠ .always)) = false)
    (hcontents : d.contents? path = some contents) :
    d.openPath r text =
      if r.creation = .always then .error .alreadyExists
      else .ok (path, if r.truncate then d.put path (.file []) else d) := by
  have hnode := contents?_eq_some_iff.mp hcontents
  rw [h.openPath_eq hr, hnode]
  simp [openExisting, hnode]

/-- Where there is nothing an empty file is made, if the request allows it. -/
theorem openPath_of_missing (h : d.LeadsTo text path)
    (hr : (r.append && r.truncate && decide (r.creation ≠ .always)) = false)
    (hmissing : d.node? path = none) :
    d.openPath r text =
      if r.creation = .never then .error .notFound
      else .ok (path, d.put path (.file [])) := by
  rw [h.openPath_eq hr, hmissing]
  rfl

end LeadsTo

end Directory

/-! ### Open files -/

namespace OpenFile

variable {f f' : OpenFile} {d d' : Directory} {bytes contents : List UInt8} {path : Path}

/-- Reading moves the position and does nothing else to a file. -/
theorem eq_of_read {count : Nat} (h : f.read d count = .ok (bytes, f')) :
    f' = { f with position := f'.position } := by
  rw [read] at h
  split at h
  next =>
    obtain ⟨-, rfl⟩ := Prod.mk.inj (Except.ok.inj h)
    rfl
  next => cases h
  next => cases h

/-- Writing moves the position of the file, and changes contents in the tree. -/
theorem grows_write (h : f.write d bytes = .ok (f', d')) :
    f' = { f with position := f'.position } ∧ d.Grows d' := by
  rw [write] at h
  split at h
  next =>
    obtain ⟨rfl, rfl⟩ := Prod.mk.inj (Except.ok.inj h)
    exact ⟨rfl, refl_of Directory.Grows d⟩
  next =>
  split at h
  next contents hnode =>
    obtain ⟨rfl, rfl⟩ := Prod.mk.inj (Except.ok.inj h)
    exact ⟨rfl, Directory.grows_put (fun hdirectory ↦ nomatch hnode.symm.trans hdirectory) _⟩
  next => cases h
  next => cases h

/-- What is written over a file from its end on is added to it. -/
theorem overwrite_length (contents bytes : List UInt8) :
    overwrite contents contents.length bytes = contents ++ bytes := by
  simp [overwrite]

/-- What is written to a file that is appended to lands at its end. -/
theorem write_append (happend : f.append = true)
    (hcontents : d.contents? f.place = some contents) (bytes : List UInt8) :
    ∃ f' d', f.write d bytes = .ok (f', d') ∧ d.PutAt f.place (contents ++ bytes) d' := by
  have hnode := Directory.contents?_eq_some_iff.mp hcontents
  have hroot : f.place ≠ [] := Directory.ne_nil_of_node?_ne fun h ↦ nomatch hnode.symm.trans h
  rw [write]
  by_cases hempty : bytes.isEmpty = true
  · rw [if_pos hempty, List.isEmpty_iff.mp hempty, List.append_nil]
    exact ⟨f, d, rfl, Directory.putAt_self hcontents⟩
  · rw [if_neg hempty, hnode]
    dsimp only
    rw [happend, if_pos rfl, overwrite_length]
    exact ⟨_, _, rfl, Directory.putAt_put hroot _⟩

end OpenFile

end LongMode.Linux
