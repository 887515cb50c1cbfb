/-!
Guest addresses and pages. An address is a 64-bit word; memory is divided into pages of 4096 bytes,
and an address is a page number together with an offset in that page. The page functions work on the
natural number an address denotes, so that rounding never wraps unnoticed.
-/

set_option autoImplicit false
set_option relaxedAutoImplicit false

namespace LongMode

/-- A guest virtual address; sums of addresses wrap at 2^64. -/
abbrev Address := BitVec 64

/-- Bytes in a page. -/
def pageSize : Nat := 4096

/-- Number of addresses: every address denotes a number below it. -/
def addressLimit : Nat := 0x10000000000000000

/-- A length rounded up to whole pages. -/
def roundUpToPage (length : Nat) : Nat :=
  (length + (pageSize - 1)) / pageSize * pageSize

namespace Address

/-- The number of the page that holds an address. -/
def page (a : Address) : Nat :=
  a.toNat / pageSize

/-- The position of an address in its page. -/
def pageOffset (a : Address) : Nat :=
  a.toNat % pageSize

/-- Whether an address is the first of its page. -/
def isPageAligned (a : Address) : Bool :=
  a.pageOffset == 0

/-- The first address of a page. -/
def ofPage (page : Nat) : Address :=
  BitVec.ofNat 64 (page * pageSize)

/-- The first address of the page that holds `a`. -/
def pageFloor (a : Address) : Address :=
  ofPage a.page

/-- The lowest page boundary at or above `a`, if rounding up stays below 2^64. -/
def pageCeil? (a : Address) : Option Address :=
  if a.toNat + (pageSize - 1) < addressLimit then
    some (BitVec.ofNat 64 (roundUpToPage a.toNat))
  else none

end Address

end LongMode
