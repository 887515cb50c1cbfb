import LongMode.Linux.Kernel
import LongMode.Text.Utf8

/-!
Calls on descriptors: reading, writing, opening, positioning and closing. A transfer moves at most
`maxTransfer` bytes, and moves nothing if a byte of the buffer may not be touched.
-/

set_option autoImplicit false
set_option relaxedAutoImplicit false

namespace LongMode.Linux.Call

open Text

/-- The greatest number of bytes in one transfer. -/
def maxTransfer : Nat := 0x100000

/-- The greatest number of buffers in one transfer. -/
def maxBuffers : Nat := 1024

/-- Let a descriptor refer to a file in a new state. -/
def updateFile (descriptor : Word) (f : OpenFile) : Call Unit :=
  modifyKernel fun k => { k with descriptors := k.descriptors.set descriptor.toNat (.file f) }

/-- Take up to `count` bytes from what a descriptor refers to. -/
def take (descriptor : Word) (count : Nat) : OpenObject → Call (List UInt8)
  | .input => do
    let k ← kernel
    modifyKernel fun k => { k with input := k.input.drop count }
    return k.input.take count
  | .file f => do
    let (bytes, f) ← orFail FileError.errno (f.read (← kernel).directory count)
    updateFile descriptor f
    return bytes
  | _ => throw .ebadf

/-- Read into a buffer; the result is the number of bytes. -/
def read (descriptor : Word) (buffer : Address) (count : Word) : Call Word := do
  let source ← readable descriptor
  let count := min count.toNat maxTransfer
  requireStorable buffer count
  let bytes ← take descriptor count source
  store buffer bytes
  return BitVec.ofNat 64 bytes.length

/-- Put bytes out on what a descriptor refers to; the result is their number. Whatever keeps a file
from taking them counts as a failure of output. -/
def emit (descriptor : Word) (bytes : List UInt8) : OpenObject → Call Word
  | .output => do
    modifyKernel fun k => { k with output := k.output.append bytes }
    return BitVec.ofNat 64 bytes.length
  | .errors => do
    modifyKernel fun k => { k with errors := k.errors.append bytes }
    return BitVec.ofNat 64 bytes.length
  | .file f => do
    let (f, directory) ← orFail (fun _ => .eio) (f.write (← kernel).directory bytes)
    modifyKernel fun k => { k with directory }
    updateFile descriptor f
    return BitVec.ofNat 64 bytes.length
  | .input => throw .ebadf

/-- Write a buffer. -/
def write (descriptor : Word) (buffer : Address) (count : Word) : Call Word := do
  let sink ← writable descriptor
  let bytes ← load buffer (min count.toNat maxTransfer)
  emit descriptor bytes sink

/-- The bytes of the buffers that entries of a table name, as far as a transfer has room: each entry
is the address of a buffer and its length. -/
def gather (table : Address) : (count : Nat) → (room : Nat) → Call (List UInt8)
  | 0, _ => return []
  | count + 1, room => do
    let buffer ← loadWord table
    let length ← loadWord (table + 8)
    let bytes ← load buffer (min length.toNat room)
    let rest ← gather (table + 16) count (room - bytes.length)
    return bytes ++ rest

/-- Write several buffers, one after the other. -/
def writeGathered (descriptor : Word) (table : Address) (count : Word) : Call Word := do
  if maxBuffers < count.toNat then throw .einval
  let sink ← writable descriptor
  let bytes ← gather table count.toNat maxTransfer
  emit descriptor bytes sink

/-! ### Opening and closing -/

/-- The directory argument that stands for the working directory. -/
def workingDirectory : Word := BitVec.ofInt 64 (-100)

/-- Load the path at an address. -/
def loadPath (a : Address) : Call String := do
  let bytes ← orFail (fun _ => .efault) ((← get).memory.readString a Directory.maxPath)
  if Directory.maxPath ≤ bytes.length then throw .enametoolong
  if bytes.isEmpty then throw .enoent
  return Utf8.decodeLenient bytes

/-- A flag of an open call: bit 6 is to make the file, 7 that it must not exist, 9 to drop its
contents and 10 to append. -/
def openFlag (flags : Word) (bit : Nat) : Bool :=
  flags.getLsbD bit

/-- Open the file at the end of a path. -/
def openInDirectory (r : Directory.OpenRequest) (path : String) : Call Path := do
  let (place, directory) ← orFail FileError.errno ((← kernel).directory.openPath r path)
  modifyKernel fun k => { k with directory }
  return place

/-- Make a file that is then opened for reading; one that exists is left alone unless it must
not. -/
def createForReading (path : String) (exclusive : Bool) : Call Unit := do
  let r : Directory.OpenRequest :=
    { read := false, write := true, append := false, truncate := false, creation := .always }
  match (← kernel).directory.openPath r path with
  | .ok (_, directory) => modifyKernel fun k => { k with directory }
  | .error .alreadyExists => if exclusive then throw .eexist
  | .error e => throw e.errno

/-- Open a file: the result is the lowest free descriptor. A path that does not begin with a slash
is understood in the working directory only. -/
def openAt (directory : Word) (path : Address) (flags : Word) : Call Word := do
  let path ← loadPath path
  if directory ≠ workingDirectory ∧ !path.startsWith "/" then
    throw (if ((← kernel).descriptors.get? directory).isSome then .enotdir else .ebadf)
  let (readable, writable) ←
    match flags.toNat % 4 with
    | 0 => pure (true, false)
    | 1 => pure (false, true)
    | 2 => pure (true, true)
    | _ => throw .einval
  let create := openFlag flags 6
  let exclusive := openFlag flags 7
  if create ∧ !writable then createForReading path exclusive
  let place ← openInDirectory
    { read := readable
      write := writable
      append := openFlag flags 10
      truncate := writable && openFlag flags 9
      creation :=
        if !(create && writable) then .never else if exclusive then .always else .ifMissing } path
  match (← kernel).descriptors.lowestFree? with
  | none => throw .emfile
  | some free =>
    let f : OpenFile := { place, readable, writable, append := openFlag flags 10 }
    modifyKernel fun k => { k with descriptors := k.descriptors.set free (.file f) }
    return BitVec.ofNat 64 free

/-- Move the position of a file: from its start, from where it is or from its end. Streams have
none. -/
def reposition (descriptor offset base : Word) : Call Word := do
  match ← object descriptor with
  | .file f =>
    match f.base? (← kernel).directory base.toNat with
    | some start =>
      let f ← orFail FileError.errno (f.seek start offset.toInt)
      updateFile descriptor f
      return BitVec.ofNat 64 f.position
    | none => throw .einval
  | _ => throw .espipe

/-- Close a descriptor. -/
def close (descriptor : Word) : Call Word := do
  let _ ← object descriptor
  modifyKernel fun k => { k with descriptors := k.descriptors.erase descriptor }
  return 0

end LongMode.Linux.Call
