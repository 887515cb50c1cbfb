import LongMode.Memory.Fault

/-!
Error numbers. A failed call answers with the negated number of its cause; `Errno.ofMapError` is the
cause a caller sees for an operation on the page table that was refused.
-/

set_option autoImplicit false
set_option relaxedAutoImplicit false

namespace LongMode.Linux

/-- Why a call failed. -/
inductive Errno where
  /-- The operation is not permitted. -/
  | eperm
  /-- There is no such file. -/
  | enoent
  /-- There is no such process. -/
  | esrch
  /-- Input or output failed. -/
  | eio
  /-- The descriptor is not open, or not open for this. -/
  | ebadf
  /-- There is no room in memory. -/
  | enomem
  /-- Access is denied. -/
  | eacces
  /-- The address is bad. -/
  | efault
  /-- It exists already. -/
  | eexist
  /-- There is no such device. -/
  | enodev
  /-- It is not a directory. -/
  | enotdir
  /-- An argument is invalid. -/
  | einval
  /-- Too many descriptors are open. -/
  | emfile
  /-- The descriptor has no position. -/
  | espipe
  /-- The name is too long. -/
  | enametoolong
  /-- There is no such call. -/
  | enosys
  deriving DecidableEq, Repr

/-- The number of a cause. -/
def Errno.number : Errno → Nat
  | eperm => 1
  | enoent => 2
  | esrch => 3
  | eio => 5
  | ebadf => 9
  | enomem => 12
  | eacces => 13
  | efault => 14
  | eexist => 17
  | enodev => 19
  | enotdir => 20
  | einval => 22
  | emfile => 24
  | espipe => 29
  | enametoolong => 36
  | enosys => 38

/-- The cause that a caller sees for a refused operation on the page table. -/
def Errno.ofMapError : MapError → Errno
  | .overlap .. => .eexist
  | .unaligned _ => .einval
  | .invalidLength .. => .einval
  | .notMapped .. => .enomem
  | .outOfAddressSpace _ => .enomem

end LongMode.Linux
