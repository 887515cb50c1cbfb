import LongMode.Proofs.Decode.Decoder
import LongMode.Proofs.Decode.Firmness

/-!
Windows that end inside an instruction. Such a window is neither an instruction nor refused by the
reader (`attempt_take`), and the decoder asks whether it is one when zeros follow: if so it is
called truncated, and otherwise an invalid opcode (`decode_take`).

Zeros are as good as any other bytes where the head of the instruction is complete, that is its
prefixes, its opcode and its ModRM byte if it has one (`zerosComplete_of_head`). Where the window
ends inside the head they may be worse: they may stand for an operation that does not exist, or that
cannot be locked, or for one that takes more than fifteen bytes.
-/

set_option autoImplicit false
set_option relaxedAutoImplicit false

namespace LongMode

namespace Decode

/-- Whether a window holds the head of an instruction: its prefixes, its opcode and its ModRM byte
if it has one. -/
def HoldsHead (mode : Mode) (a : Address) (window : List UInt8) : Prop :=
  ∃ rest length, (head mode a).run 0 window = .complete rest length

/-- Whether something begins with the bytes of a window and goes on with zeros. -/
def ZerosComplete (mode : Mode) (a : Address) (window : List UInt8) : Prop :=
  ∃ finding length, attempt mode a (padded window) = .complete finding length

end Decode

open Decode

variable {mode : Mode} {a : Address} {e : List UInt8} {i : Instruction}

/-- An encoding is attempted with success, and consumed to its last byte. -/
theorem attempt_of_encoding (h : decode mode a e = .ok i) (hlength : i.length = e.length) :
    e.length ≤ maxLength ∧
      ∃ ofLength, attempt mode a e = .complete (.instruction ofLength) e.length := by
  obtain ⟨_, hmax, _⟩ := length_of_decode h
  rw [hlength] at hmax
  obtain ⟨ofLength, length, hattempt, rfl⟩ := attempt_of_decode h
  have hread := ((Decode.all_reader mode a).run hattempt length).length_eq
  rw [List.take_of_length_le hmax, ← hread, hlength] at hattempt
  exact ⟨hmax, ofLength, hattempt⟩

/-- What is not all of an encoding ends inside it. -/
theorem attempt_take (h : decode mode a e = .ok i) (hlength : i.length = e.length) {n : Nat}
    (hn : n < e.length) : attempt mode a (e.take n) = .truncated := by
  obtain ⟨_, ofLength, hattempt⟩ := attempt_of_encoding h hlength
  rw [← List.take_append_drop n e, attempt] at hattempt
  refine Reader.run_of_append hattempt ?_
  rw [List.take_append_drop, List.length_take]
  omega

/-- The answer for what is not all of an encoding: it is truncated if zeros complete it. -/
theorem decode_take (h : decode mode a e = .ok i) (hlength : i.length = e.length) {n : Nat}
    (hn : n < e.length) :
    (decode mode a (e.take n) = .error .truncated ∨
        decode mode a (e.take n) = .error .invalidOpcode) ∧
      (decode mode a (e.take n) = .error .truncated ↔
        n = 0 ∨ ZerosComplete mode a (e.take n)) := by
  have hmax := (attempt_of_encoding h hlength).1
  have hwindow : (e.take n).take maxLength = e.take n := by
    rw [List.take_take, Nat.min_eq_right (by omega)]
  have hattempt := attempt_take h hlength hn
  rw [decode, hwindow]
  by_cases hzero : n = 0
  · rw [hzero]
    exact ⟨.inl rfl, iff_of_true rfl (.inl rfl)⟩
  · have hne : (e.take n).isEmpty = false := by
      rw [List.isEmpty_eq_false_iff_exists_mem]
      refine ⟨e[0], List.mem_take_iff_getElem.mpr ⟨0, by omega, rfl⟩⟩
    simp only [hne, Bool.false_eq_true, if_false, hattempt, truncation, hzero, false_or,
      ZerosComplete]
    cases hpadded : attempt mode a (padded (e.take n)) with
    | complete finding length => exact ⟨.inl rfl, iff_of_true rfl ⟨finding, length, rfl⟩⟩
    | rejected => simp only [Except.error.injEq, reduceCtorEq, or_true, exists_false, true_and]
    | truncated => simp only [Except.error.injEq, reduceCtorEq, or_true, exists_false, true_and]

/-- Zeros complete what holds the head of an instruction. -/
theorem zerosComplete_of_head (h : decode mode a e = .ok i) (hlength : i.length = e.length)
    {n : Nat} (hhead : HoldsHead mode a (e.take n)) : ZerosComplete mode a (e.take n) := by
  obtain ⟨hmax, ofLength, hattempt⟩ := attempt_of_encoding h hlength
  obtain ⟨rest, length, hrest⟩ := hhead
  have hconsumed := (Reader.length_of_run hrest).2
  rw [Nat.zero_add] at hconsumed
  have hdrop (later : List UInt8) :
      (e.take n ++ later).drop (length - 0) = (e.take n).drop length ++ later := by
    rw [Nat.sub_zero, List.drop_append_of_le_length hconsumed]
  have hrun (later : List UInt8) : attempt mode a (e.take n ++ later) =
      rest.run length ((e.take n).drop length ++ later) := by
    rw [attempt, ← head_bind, Reader.run_bind (Reader.run_append hrest later), hdrop]
    rfl
  rw [← List.take_append_drop n e, hrun] at hattempt
  have hfirm : ∃ count, rest.Firm count := by
    rcases (all_head mode a).run hrest with hfirm | hextended
    · exact hfirm
    · exact nomatch hextended.run hattempt
  obtain ⟨count, hfirm⟩ := hfirm
  have hzeros : (e.drop n).length ≤ maxLength - (e.take n).length := by
    rw [List.length_drop, List.length_take]
    omega
  obtain ⟨finding, length', hzero⟩ := hfirm.run_append_zeros hattempt hzeros
  refine ⟨finding, length', ?_⟩
  rw [padded, hrun, hzero]

end LongMode
