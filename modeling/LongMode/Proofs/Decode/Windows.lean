import LongMode.Proofs.Decode.Decoder
import Mathlib.Algebra.Group.Nat.Defs

/-!
What of a window decides how it is decoded. An instruction is read from front to back and depends on
the bytes that it consists of, so it is found again in every window that begins with them, and in no
window that ends before them (`decode_determined`). That is what a decoded instruction can be kept
for: the stamp of its own bytes says whether it is still there.
-/

set_option autoImplicit false
set_option relaxedAutoImplicit false

namespace LongMode

variable {mode : Mode} {a : Address} {window window' : List UInt8} {i : Instruction}

/-- No more than the greatest length of an instruction is looked at. -/
theorem decode_take_maxLength (mode : Mode) (a : Address) (window : List UInt8) :
    decode mode a (window.take Decode.maxLength) = decode mode a window := by
  rw [decode, decode, List.take_take, Nat.min_self]

theorem decode_eq_of_take_maxLength_eq
    (hsame : window'.take Decode.maxLength = window.take Decode.maxLength) :
    decode mode a window' = decode mode a window := by
  rw [← decode_take_maxLength mode a window', hsame, decode_take_maxLength]

/-- What begins a window and is an instruction by itself is the instruction of the window. -/
theorem length_le_of_decode_take (h : decode mode a window = .ok i) {n : Nat} {j : Instruction}
    (hj : decode mode a (window.take n) = .ok j) : i.length ≤ n := by
  obtain ⟨_, _, hwithin⟩ := length_of_decode hj
  have hle : j.length ≤ n := Nat.le_trans hwithin (List.length_take_le n window)
  have hfound : decode mode a window = .ok j := by
    refine decode_eq_of_take_eq hj ?_
    rw [List.take_take, Nat.min_eq_left hle]
  obtain rfl : i = j := Except.ok.inj (h.symm.trans hfound)
  exact hle

/-- The address behind an instruction is its length further on, modulo `2 ^ 64`. -/
theorem Instruction.toNat_next (i : Instruction) :
    i.next.toNat = (i.address.toNat + i.length) % 2 ^ 64 := by
  rw [next, BitVec.toNat_add, BitVec.toNat_ofNat, Nat.add_mod_mod]

/-- An instruction that is decoded has between one and fifteen bytes, all of them in the window, and
knows its address and the one behind it. Every window that begins with these bytes gives the same
instruction at this address, and no window that ends before the last of them gives any. Whatever a
window gives, it gives the same if what it has beyond its first fifteen bytes is changed. -/
theorem decode_determined (mode : Mode) (a : Address) (window : List UInt8) :
    (∀ i, decode mode a window = .ok i →
      1 ≤ i.length ∧ i.length ≤ min 15 window.length ∧
        i.address = a ∧ i.next.toNat = (a.toNat + i.length) % 2 ^ 64 ∧
        (∀ window' : List UInt8, i.length ≤ window'.length →
          window'.take i.length = window.take i.length → decode mode a window' = .ok i) ∧
        ∀ n, n < i.length → ∀ j, decode mode a (window.take n) ≠ .ok j) ∧
      ∀ window' : List UInt8, window'.take 15 = window.take 15 →
        decode mode a window' = decode mode a window := by
  refine ⟨fun i h ↦ ?_, fun window' hsame ↦ decode_eq_of_take_maxLength_eq hsame⟩
  obtain ⟨hpos, hmax, hwithin⟩ := length_of_decode h
  have haddress : i.address = a := (isRead_of_decode h).address
  refine ⟨hpos, Nat.le_min.mpr ⟨hmax, hwithin⟩, haddress, ?_, ?_, ?_⟩
  · rw [i.toNat_next, haddress]
  · exact fun window' _ hsame ↦ decode_eq_of_take_eq h hsame
  · exact fun n hn j hj ↦ Nat.not_le_of_lt hn (length_le_of_decode_take h hj)

/-- Fourteen operand-size prefixes and an opcode, the longest instruction there is, in front of a
byte that is no part of it, at the last address: it is found without that byte, it is not found
without its opcode, and the address behind it has wrapped. -/
theorem decode_determined_longest :
    let nop : List UInt8 := List.replicate 14 0x66 ++ [0x90]
    ∃ i, decode .bits64 (-1) (nop ++ [0xff]) = .ok i ∧ i.length = 15 ∧ i.next.toNat = 14 ∧
      decode .bits64 (-1) nop = .ok i ∧
      ∀ j, decode .bits64 (-1) (nop.take 14) ≠ .ok j := by
  intro nop
  have hlength :
      (decode .bits64 (-1) (nop ++ [0xff])).toOption.map Instruction.length = some 15 := by
    decide +kernel
  cases hdecode : decode .bits64 (-1) (nop ++ [0xff]) with
  | error error =>
    rw [hdecode] at hlength
    cases hlength
  | ok i =>
    rw [hdecode] at hlength
    have hlength : i.length = 15 := Option.some.inj hlength
    obtain ⟨hall, hbeyond⟩ := decode_determined .bits64 (-1) (nop ++ [0xff])
    obtain ⟨_, _, _, hnext, _, hshorter⟩ := hall i hdecode
    rw [hlength] at hnext
    exact ⟨i, rfl, hlength, hnext, (hbeyond nop rfl).trans hdecode,
      hshorter 14 (by rw [hlength]; decide)⟩

end LongMode
