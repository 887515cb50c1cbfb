import LongMode.Machine.Alu
import LongMode.Machine.Basic

/-!
String instructions. A repeat prefix turns one instruction into as many steps as the counter says.
Moves and stores check the whole range first, and then move it in chunks; a move whose ranges
overlap goes element by element, because there the order shows. Comparisons stop at the first
element that meets the condition of the prefix.
-/

set_option autoImplicit false
set_option relaxedAutoImplicit false

namespace LongMode.Exec

/-- The greatest number of bytes that a repeated move or store handles at a time. -/
def chunkSize : Nat := 65536

/-- Refuse string forms with addresses of less than 64 bits. -/
def requireWideAddress (i : Instruction) : Exec Unit :=
  if i.narrowAddress then unsupported else pure ()

/-- Whether strings are walked toward lower addresses. -/
def backwards : Exec Bool := do
  return (← flags).get .direction

/-- The address of the source string. -/
def sourceAddress (i : Instruction) : Exec Address := do
  let base ← segmentBase (i.prefixes.segment.getD .ds)
  return base + (← general Register.rsi)

/-- Move a string register past `count` elements. -/
def advance (index : Fin 16) (count : Nat) (w : Width) : Exec Unit := do
  let delta := BitVec.ofNat 64 (count * w.bytes)
  let value ← general index
  setGeneral index (if ← backwards then value - delta else value + delta)

/-- The counter of a repeat prefix. -/
def counter : Exec Nat := do
  return (← general Register.rcx).toNat

/-- The lowest address and the length of `count` elements from `first` on; fails if the length is no
64-bit number. -/
def span (first : Address) (count : Nat) (w : Width) : Exec (Address × Nat) := do
  let total := count * w.bytes
  if addressLimit ≤ total then fault (.memory (.unmapped first .read))
  return (if ← backwards then first - BitVec.ofNat 64 (total - w.bytes) else first, total)

/-! ### Moves -/

/-- Move `count` elements one after the other. -/
def moveElements (w : Width) (back : Bool) : (count : Nat) → (src dst : Address) → Exec Unit
  | 0, _, _ => pure ()
  | count + 1, src, dst => do
    let value ← load src w
    store dst w value
    let step := BitVec.ofNat 64 w.bytes
    if back then moveElements w back count (src - step) (dst - step)
    else moveElements w back count (src + step) (dst + step)

/-- The number of chunks in a length. -/
def chunksIn (length : Nat) : Nat :=
  (length + (chunkSize - 1)) / chunkSize

/-- Move `length` bytes as `count` chunks in ascending order. -/
def moveChunks : (count : Nat) → (src dst : Address) → (length : Nat) → Exec Unit
  | 0, _, _, _ => pure ()
  | count + 1, src, dst, length => do
    let now := min length chunkSize
    let bytes ← loadBytes src now
    storeBytes dst bytes
    moveChunks count (src + BitVec.ofNat 64 now) (dst + BitVec.ofNat 64 now) (length - now)

/-- Whether two ranges of one length overlap. -/
def overlaps (a b : Address) (length : Nat) : Bool :=
  let size := BitVec.ofNat 64 length
  decide (a < b + size) && decide (b < a + size)

/-- A repeated move of `count` elements. -/
def moveRepeated (w : Width) (src dst : Address) (count : Nat) : Exec Unit := do
  let (srcLow, total) ← span src count w
  let (dstLow, _) ← span dst count w
  check .read srcLow total
  check .write dstLow total
  if overlaps srcLow dstLow total then moveElements w (← backwards) count src dst
  else moveChunks (chunksIn total) srcLow dstLow total

/-- A move of string elements. -/
def moveString (w : Width) (i : Instruction) : Exec Unit := do
  requireWideAddress i
  let src ← sourceAddress i
  let dst ← general Register.rdi
  if i.prefixes.repetition.isNone then
    store dst w (← load src w)
    advance Register.rsi 1 w
    advance Register.rdi 1 w
  else
    let count ← counter
    if count ≠ 0 then
      moveRepeated w src dst count
      advance Register.rsi count w
      advance Register.rdi count w
      setGeneral Register.rcx 0

/-! ### Stores and loads -/

/-- Fill `length` bytes with copies of an element as `count` chunks in ascending order. -/
def fillChunks (element : List UInt8) :
    (count : Nat) → (dst : Address) → (length : Nat) → Exec Unit
  | 0, _, _ => pure ()
  | count + 1, dst, length => do
    let now := min length chunkSize
    storeBytes dst (List.replicate (now / element.length) element).flatten
    fillChunks element count (dst + BitVec.ofNat 64 now) (length - now)

/-- A store of the accumulator to string elements. -/
def storeString (w : Width) (i : Instruction) : Exec Unit := do
  requireWideAddress i
  let value ← generalLow Register.rax w
  let dst ← general Register.rdi
  if i.prefixes.repetition.isNone then
    store dst w value
    advance Register.rdi 1 w
  else
    let count ← counter
    if count ≠ 0 then
      let (low, total) ← span dst count w
      check .write low total
      fillChunks (LittleEndian.ofNat w.bytes value.toNat) (chunksIn total) low total
      advance Register.rdi count w
      setGeneral Register.rcx 0

/-- A load of string elements into the accumulator, of which the last one stays. -/
def loadString (w : Width) (i : Instruction) : Exec Unit := do
  requireWideAddress i
  let src ← sourceAddress i
  let repeated := i.prefixes.repetition.isSome
  let count ← if repeated then counter else pure 1
  if count ≠ 0 then
    let (low, total) ← span src count w
    check .read low total
    let last := if ← backwards then low else low + BitVec.ofNat 64 (total - w.bytes)
    setGeneralLow Register.rax w (← load last w)
    advance Register.rsi count w
    if repeated then setGeneral Register.rcx 0

/-! ### Comparisons -/

/-- Whether a repeated comparison stops after a comparison with the given zero flag. -/
def stopsAt (repetition : Repeat) (zero : Bool) : Bool :=
  match repetition with
  | .rep => !zero
  | .repne => zero

/-- Up to `count` comparisons; the counter keeps the number of those left. -/
def compareRepeated (repetition : Repeat) (step : Exec Unit) : (count : Nat) → Exec Unit
  | 0 => pure ()
  | count + 1 => do
    step
    setGeneral Register.rcx (BitVec.ofNat 64 count)
    if stopsAt repetition ((← flags).get .zero) then pure ()
    else compareRepeated repetition step count

/-- One comparison, or as many as a repeat prefix asks for. -/
def compareAll (i : Instruction) (step : Exec Unit) : Exec Unit := do
  match i.prefixes.repetition with
  | none => step
  | some repetition => compareRepeated repetition step (← counter)

/-- A comparison of string elements. -/
def compareStrings (w : Width) (i : Instruction) : Exec Unit := do
  requireWideAddress i
  compareAll i do
    let a ← load (← sourceAddress i) w
    let b ← load (← general Register.rdi) w
    modifyFlags fun f => (Alu.sub f a b false).2
    advance Register.rsi 1 w
    advance Register.rdi 1 w

/-- A comparison of string elements with the accumulator. -/
def scanString (w : Width) (i : Instruction) : Exec Unit := do
  requireWideAddress i
  let a ← generalLow Register.rax w
  compareAll i do
    let b ← load (← general Register.rdi) w
    modifyFlags fun f => (Alu.sub f a b false).2
    advance Register.rdi 1 w

/-- A string instruction. -/
def string (op : StringOp) (w : Width) (i : Instruction) : Exec Unit :=
  match op with
  | .movs => moveString w i
  | .stos => storeString w i
  | .lods => loadString w i
  | .cmps => compareStrings w i
  | .scas => scanString w i

end LongMode.Exec
