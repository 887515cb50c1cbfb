import LongMode.Linux.Errno

/-!
Files. A `Directory` is the tree of all directories and regular files, as a process sees it: it
knows its working directory, and in some directories no file can be made. Paths lead through the
tree from its root or from the working directory.

`Directory.node?` is the view: what a path from the root names. `Directory.openPath` finds or makes a
file for a descriptor; `OpenFile.read`, `OpenFile.write` and `OpenFile.seek` go on from there.
-/

set_option autoImplicit false
set_option relaxedAutoImplicit false

namespace LongMode.Linux

/-- What a path in the tree can name. -/
inductive Node where
  | directory
  | file (contents : List UInt8)
  deriving DecidableEq, Repr

/-- A path from the root of the tree: names, the outermost first. -/
abbrev Path := List String

/-- Why an operation on files failed. -/
inductive FileError where
  /-- There is no such file. -/
  | notFound
  /-- The file to be made exists. -/
  | alreadyExists
  /-- No file can be made in the directory. -/
  | permissionDenied
  /-- The request contradicts itself, or the position is no position. -/
  | invalidRequest
  /-- A path goes through a file that is no directory. -/
  | notDirectory
  /-- A directory cannot be read or written like a file. -/
  | isDirectory
  /-- A name is too long. -/
  | nameTooLong
  deriving DecidableEq, Repr

/-- The cause that a caller sees for a file error; several of them look alike. -/
def FileError.errno : FileError → Errno
  | notFound => .enoent
  | alreadyExists => .eexist
  | permissionDenied => .eacces
  | invalidRequest => .einval
  | notDirectory | isDirectory | nameTooLong => .eio

/-- The tree of files as a process sees it. -/
structure Directory where
  /-- Every entry but the root, by path; of two with the same path the first counts. -/
  entries : List (Path × Node) := []
  /-- The working directory. -/
  working : Path := []
  /-- The directories in which no file can be made. -/
  locked : List Path := []
  deriving DecidableEq, Repr

namespace Directory

/-- What a path names. -/
def node? (d : Directory) (path : Path) : Option Node :=
  if path.isEmpty then some .directory else d.entries.lookup path

/-- The contents of a regular file. -/
def contents? (d : Directory) (path : Path) : Option (List UInt8) :=
  match d.node? path with
  | some (.file contents) => some contents
  | _ => none

/-- Make a path name something. -/
def put (d : Directory) (path : Path) (node : Node) : Directory :=
  { d with entries := (path, node) :: d.entries.filter (·.1 ≠ path) }

/-- Make directories of a path and of all that it goes through. -/
def makeDirectories (d : Directory) (path : Path) : Directory :=
  (List.range path.length).foldl (fun d i =>
    let p := path.take (i + 1)
    if (d.node? p).isSome then d else d.put p .directory) d

/-! ### Paths -/

/-- The greatest number of bytes in a name. -/
def maxName : Nat := 255

/-- The greatest number of bytes in a path, with the zero byte that ends it. -/
def maxPath : Nat := 4096

/-- The parts of a text between slashes. -/
def parts : List Char → List (List Char)
  | [] => [[]]
  | c :: rest =>
    if c = '/' then [] :: parts rest
    else
      match parts rest with
      | [] => [[c]]
      | first :: others => (c :: first) :: others

/-- The names of a path; empty parts do not count. -/
def names (path : String) : List String :=
  ((parts path.toList).filter (!·.isEmpty)).map String.ofList

/-- Where a path starts: at the root of the tree if it begins with a slash, and otherwise in the
working directory. -/
def start (d : Directory) (path : String) : Path :=
  if path.startsWith "/" then [] else d.working

/-- Whether a name stands for the directory it is in or for the one above. -/
def isDots (name : String) : Bool :=
  name = "." || name = ".."

/-- One step of a path from a place, which has to be a directory. The root is the directory above
itself. -/
def step (d : Directory) (place : Path) (name : String) : Except FileError Path :=
  if d.node? place ≠ some .directory then .error .notDirectory
  else if name = "." then .ok place
  else if name = ".." then .ok place.dropLast
  else if maxName < name.utf8ByteSize then .error .nameTooLong
  else if (d.node? (place ++ [name])).isSome then .ok (place ++ [name])
  else .error .notFound

/-- Where names lead, one after the other. -/
def walk (d : Directory) (place : Path) (names : List String) : Except FileError Path :=
  names.foldlM d.step place

/-- Where a path leads. -/
def resolve (d : Directory) (path : String) : Except FileError Path :=
  d.walk (d.start path) (names path)

/-- The contents of the regular file at the end of a path. -/
def load? (d : Directory) (path : String) : Option (List UInt8) :=
  match d.resolve path with
  | .ok place => if path.endsWith "/" then none else d.contents? place
  | .error _ => none

/-! ### Opening -/

/-- What to do about a file that does not exist, or does. -/
inductive Creation where
  /-- The file has to exist. -/
  | never
  /-- It is made if it does not exist. -/
  | ifMissing
  /-- It must not exist, and is made. -/
  | always
  deriving DecidableEq, Repr

/-- How a file is to be opened. -/
structure OpenRequest where
  /-- For reading. -/
  read : Bool
  /-- For writing. -/
  write : Bool
  /-- Every write goes to the end. -/
  append : Bool
  /-- Its contents are dropped. -/
  truncate : Bool
  /-- What to do if it does not exist. -/
  creation : Creation
  deriving DecidableEq, Repr

/-- Open what is at a place. A directory can only be opened for reading, and a path that ends with a
slash leads to directories only. -/
def openExisting (d : Directory) (r : OpenRequest) (place : Path) (slash : Bool) :
    Except FileError (Path × Directory) :=
  if r.creation = .always then .error .alreadyExists
  else
    match d.node? place with
    | some (.file _) =>
      if slash then .error .notDirectory
      else .ok (place, if r.truncate then d.put place (.file []) else d)
    | some .directory =>
      if r.creation ≠ .never || r.write || r.append then .error .isDirectory else .ok (place, d)
    | none => .error .notFound

/-- Make an empty file in a directory, if the request and the directory allow it. -/
def openMissing (d : Directory) (r : OpenRequest) (folder : Path) (name : String) :
    Except FileError (Path × Directory) :=
  if r.creation = .never then .error .notFound
  else if folder ∈ d.locked then .error .permissionDenied
  else .ok (folder ++ [name], d.put (folder ++ [name]) (.file []))

/-- Open a name in a directory. -/
def openName (d : Directory) (r : OpenRequest) (folder : Path) (name : String) (slash : Bool) :
    Except FileError (Path × Directory) :=
  if d.node? folder ≠ some .directory then .error .notDirectory
  else if isDots name then do
    let place ← d.step folder name
    d.openExisting r place slash
  else if r.creation ≠ .never && slash then .error .isDirectory
  else if maxName < name.utf8ByteSize then .error .nameTooLong
  else if (d.node? (folder ++ [name])).isSome then d.openExisting r (folder ++ [name]) slash
  else d.openMissing r folder name

/-- Open the file at the end of a path: where it is, and the directory with what opening changed. To
drop the contents of a file and to append to it contradict each other unless the file is new. -/
def openPath (d : Directory) (r : OpenRequest) (path : String) :
    Except FileError (Path × Directory) := do
  if r.append && r.truncate && r.creation ≠ .always then .error .invalidRequest
  else if maxPath ≤ path.utf8ByteSize then .error .nameTooLong
  else
    match (names path).getLast? with
    | none => d.openExisting r (d.start path) true
    | some last =>
      let folder ← d.walk (d.start path) (names path).dropLast
      d.openName r folder last (path.endsWith "/")

end Directory

/-! ### Open files -/

/-- A file as a descriptor refers to it. -/
structure OpenFile where
  /-- Where it is. -/
  place : Path
  /-- Whether it may be read. -/
  readable : Bool
  /-- Whether it may be written. -/
  writable : Bool
  /-- Whether every write goes to the end. -/
  append : Bool
  /-- Where the next read or write begins. -/
  position : Nat := 0
  deriving DecidableEq, Repr

namespace OpenFile

/-- No position reaches this number. -/
def positionLimit : Nat := 0x8000000000000000

/-- The number of bytes in a file; a directory has none. -/
def size (f : OpenFile) (d : Directory) : Nat :=
  match d.node? f.place with
  | some (.file contents) => contents.length
  | _ => 0

/-- Read up to `count` bytes from the position on, and move it past them. -/
def read (f : OpenFile) (d : Directory) (count : Nat) :
    Except FileError (List UInt8 × OpenFile) :=
  match d.node? f.place with
  | some (.file contents) =>
    let bytes := (contents.drop f.position).take count
    .ok (bytes, { f with position := f.position + bytes.length })
  | some .directory => .error .isDirectory
  | none => .error .notFound

/-- Bytes with others put over them from a position on; a gap is filled with zeros. -/
def overwrite (contents : List UInt8) (position : Nat) (bytes : List UInt8) : List UInt8 :=
  contents.take position ++ List.replicate (position - contents.length) 0 ++ bytes
    ++ contents.drop (position + bytes.length)

/-- Write bytes at the position, or at the end of a file that is appended to, and move the position
past them. No bytes change nothing. -/
def write (f : OpenFile) (d : Directory) (bytes : List UInt8) :
    Except FileError (OpenFile × Directory) :=
  if bytes.isEmpty then .ok (f, d)
  else
    match d.node? f.place with
    | some (.file contents) =>
      let position := if f.append then contents.length else f.position
      .ok ({ f with position := position + bytes.length },
        d.put f.place (.file (overwrite contents position bytes)))
    | some .directory => .error .isDirectory
    | none => .error .notFound

/-- What an offset is counted from: the start of the file, the position or the end. -/
def base? (f : OpenFile) (d : Directory) : (number : Nat) → Option Nat
  | 0 => some 0
  | 1 => some f.position
  | 2 => some (f.size d)
  | _ => none

/-- Move the position to a number of bytes from a base. -/
def seek (f : OpenFile) (base : Nat) (offset : Int) : Except FileError OpenFile :=
  let position := base + offset
  if 0 ≤ position ∧ position < positionLimit then .ok { f with position := position.toNat }
  else .error .invalidRequest

end OpenFile

end LongMode.Linux
