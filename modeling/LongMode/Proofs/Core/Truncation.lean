import LongMode.Proofs.Core.Sessions
import LongMode.Proofs.Decode.Truncation

/-!
Instructions that run off the code. Where the executable bytes at the instruction pointer are the
beginning of an instruction and end before it does, a step asks the decoder whether the window is
truncated. If so, the step faults at the first byte that is missing, and otherwise it ends the
thread (`Core.step_of_endsAfter`).

A window that holds the head of the instruction is truncated, and so is an empty one
(`Session.step_of_cut_off`). Of other windows this does not hold: a locked exchange that is cut off
after its escape byte ends the thread (`Session.halts_of_cut_off`).
-/

set_option autoImplicit false
set_option relaxedAutoImplicit false

namespace LongMode

/-! ### Fetching up to the end of the code -/

namespace Memory

/-- The refusal to fetch a byte that cannot be executed. -/
def fetchFault (m : Memory) (a : Address) : MemoryFault :=
  if (m.page? a).isSome then .denied a .execute else .unmapped a .execute

/-- The executable bytes from an address on: a string, and nothing behind it. -/
structure EndsAfter (m : Memory) (a : Address) (bytes : List UInt8) : Prop where
  code (j : Nat) : j < bytes.length → m.code? (a.toNat + j) = bytes[j]?
  stop : m.code? (a.toNat + bytes.length) = none

theorem fetch_of_code?_eq_none {m : Memory} {a : Address} (h : m.code? a.toNat = none)
    (window : Nat) : m.fetch a window = .error (m.fetchFault a) := by
  have hpage : m.executablePage a.page a = .error (m.fetchFault a) := by
    rw [code?] at h
    rw [show a.toNat / pageSize = a.page from rfl] at h
    rw [executablePage, fetchFault, page?]
    cases hfound : m.space.pages[a.page]? with
    | none => rfl
    | some p =>
      by_cases hexecute : p.permissions.execute = true
      · simp [hfound, hexecute] at h
      · simp [hexecute]
  rw [fetch, hpage]
  rfl

/-- A fetch returns the executable bytes if they end within the window. -/
theorem fetch_of_endsAfter {m : Memory} {a : Address} {bytes : List UInt8}
    (h : m.EndsAfter a bytes) (hpos : 0 < bytes.length) {window : Nat}
    (hwindow : bytes.length ≤ window) (htwo : window ≤ pageSize) :
    ∃ s, m.fetch a window = .ok (bytes, s) := by
  have hoffset := a.pageOffset_lt
  obtain ⟨fetched, s, hfetch, hle⟩ := fetch_of_code? hpos hwindow fun j hj ↦ by
    rw [h.code j hj, List.getElem?_eq_getElem hj]
    rfl
  have hcode {j : Nat} (hj : j < fetched.length) (hin : j ≤ bytes.length) :
      m.code? (a.toNat + j) = fetched[j]? :=
    code?_of_fetch hfetch hj (by omega)
  have hlength : fetched.length = bytes.length := by
    refine Nat.le_antisymm (Nat.le_of_not_lt fun hlt ↦ ?_) hle
    have hnone := (hcode hlt (Nat.le_refl _)).symm.trans h.stop
    rw [List.getElem?_eq_getElem hlt] at hnone
    exact nomatch hnone
  have hsame : fetched = bytes := by
    refine List.ext_getElem? fun j ↦ ?_
    by_cases hj : j < bytes.length
    · rw [← h.code j hj, hcode (by omega) (Nat.le_of_lt hj)]
    · rw [List.getElem?_eq_none (by omega), List.getElem?_eq_none (by omega)]
  exact ⟨s, hsame ▸ hfetch⟩

/-- Code ends below 2^64. -/
theorem EndsAfter.toNat_stop {m : Memory} (hm : m.WellFormed) {a : Address} {bytes : List UInt8}
    (h : m.EndsAfter a bytes) (hpos : 0 < bytes.length) :
    (a + BitVec.ofNat 64 bytes.length).toNat = a.toNat + bytes.length := by
  refine Address.toNat_add_ofNat a ?_
  have hlast := h.code (bytes.length - 1) (by omega)
  rw [List.getElem?_eq_getElem (by omega), code?] at hlast
  cases hpage : m.space.pages[(a.toNat + (bytes.length - 1)) / pageSize]? with
  | none =>
    simp only [hpage, reduceCtorEq] at hlast
  | some p =>
    have hlt := hm.page_lt _ p hpage
    simp only [pageSize] at hlt
    omega

end Memory

/-! ### A step at the end of the code -/

namespace Core

variable {c : Core} {m : Memory} {t : Thread} {bytes : List UInt8}

/-- What is read where the executable bytes end and are no instruction: a truncated window is a
fault at the first byte that is missing, and an invalid opcode is reported with the bytes. -/
theorem read_of_endsAfter (hm : m.WellFormed) {a : Address} (h : m.EndsAfter a bytes)
    (hlength : bytes.length < Decode.maxLength) :
    (decode .bits64 a bytes = .error .truncated →
        read m a = .error (.fault (m.fetchFault (a + BitVec.ofNat 64 bytes.length)))) ∧
      (decode .bits64 a bytes = .error .invalidOpcode →
        read m a = .error (.decode .invalidOpcode bytes)) := by
  rcases Nat.eq_zero_or_pos bytes.length with hempty | hpos
  · have hstop := h.stop
    rw [hempty, Nat.add_zero] at hstop
    have hfetch := Memory.fetch_of_code?_eq_none hstop Decode.maxLength
    refine ⟨fun _ ↦ ?_, fun hdecode ↦ ?_⟩
    · rw [hempty, BitVec.add_zero]
      simp only [read, fetch, lookup, hfetch]
    · rw [List.eq_nil_of_length_eq_zero hempty] at hdecode
      cases hdecode
  · obtain ⟨s, hfetch⟩ := Memory.fetch_of_endsAfter h hpos (Nat.le_of_lt hlength) (by decide)
    have hstop := h.stop
    rw [← h.toNat_stop hm hpos] at hstop
    have hprobe := Memory.fetch_of_code?_eq_none hstop 1
    refine ⟨fun hdecode ↦ ?_, fun hdecode ↦ ?_⟩
    · have hfailure : failure m a bytes .truncated =
          .fault (m.fetchFault (a + BitVec.ofNat 64 bytes.length)) := by
        rw [failure, if_pos ⟨rfl, hlength⟩, hprobe]
      simp only [read, fetch, lookup, hfetch, hdecode, hfailure]
    · have hfailure : failure m a bytes .invalidOpcode = .decode .invalidOpcode bytes := by
        rw [failure, if_neg (by simp only [reduceCtorEq, false_and, not_false_eq_true])]
      simp only [read, fetch, lookup, hfetch, hdecode, hfailure]

/-- What a step does there: a truncated window is a fault and leaves the thread as it was, apart
from its queue of faults, and an invalid opcode ends the thread. -/
theorem step_of_endsAfter (hc : c.Coherent m.frames) (hplaced : c.Placed) (hm : m.WellFormed)
    (ht : t.halted = none) (h : m.EndsAfter t.registers.rip bytes)
    (hlength : bytes.length < Decode.maxLength)
    (hverdict : decode .bits64 t.registers.rip bytes = .error .truncated ∨
      decode .bits64 t.registers.rip bytes = .error .invalidOpcode) :
    ∃ r, c.step t (some m) = .ok r ∧ r.memory = m ∧
      (decode .bits64 t.registers.rip bytes = .error .truncated →
        let fault := Fault.memory
          (m.fetchFault (t.registers.rip + BitVec.ofNat 64 bytes.length))
        r.result = .faulted fault t.registers.rip ∧
          r.thread = t.deliver ⟨fault, t.registers.rip⟩) ∧
      (decode .bits64 t.registers.rip bytes = .error .invalidOpcode →
        let reason := HaltReason.decode t.registers.rip bytes .invalidOpcode
        r.result = .halted reason ∧ r.thread = { t with halted := some reason }) := by
  obtain ⟨htruncated, hinvalid⟩ := read_of_endsAfter hm h hlength
  have hstep := stepOne_of_placed hc hm hplaced t
  rw [interpret_eq] at hstep
  refine ⟨_, step_eq_ok.mpr ⟨ht, m, rfl, rfl⟩, ?_⟩
  rcases hverdict with hdecode | hdecode
  · rw [htruncated hdecode] at hstep
    rw [hstep, hdecode]
    exact ⟨rfl, fun _ ↦ ⟨rfl, rfl⟩, fun hother ↦ by cases hother⟩
  · have hhalt (reason : HaltReason) :
        t.halt reason = .ok { t with halted := some reason } := by
      rw [Thread.halt, Thread.isHalted, ht]
      rfl
    rw [hinvalid hdecode] at hstep
    rw [hstep, hdecode]
    refine ⟨rfl, fun hother ↦ (by cases hother), fun _ ↦ ⟨rfl, ?_⟩⟩
    simp only [Run.extend, Thread.haltOnDecode, hhalt]
    rfl

end Core

/-! ### Sessions -/

namespace Session

/-- A string of bytes that is one instruction, and what there is before its last byte is fetched or
decoded. It counts as truncated or as an invalid opcode: as truncated just if it is empty or zeros
complete it, so in particular if it holds the prefixes, the opcode and the ModRM byte. Where the
executable bytes at the instruction pointer of a thread end like this, on any core whose decode
cache is for at most 2^63 instructions and after whatever the thread and the machine did, a step
leaves memory alone. If they count as truncated then it faults, at the first byte that is missing,
and does not end the thread; if they count as an invalid opcode then it ends the thread. -/
theorem step_of_cut_off (config : CoreConfig) (windows : Nat → MapWindow) (history : List Action)
    (k : Nat) (t : Thread) (commands : List Command) {a : Address} {e : List UInt8}
    {i : Instruction} (hdecode : decode .bits64 a e = .ok i) (hlength : i.length = e.length)
    {n : Nat} (hn : n < e.length) :
    let s := (Session.play Core.run k
      ⟨.ofConfig config, t, (World.start windows).after history⟩ commands).2
    let m := s.world.memory k
    let verdict := decode .bits64 a (e.take n)
    (verdict = .error .truncated ∨ verdict = .error .invalidOpcode) ∧
      (verdict = .error .truncated ↔ n = 0 ∨ Decode.ZerosComplete .bits64 a (e.take n)) ∧
      (Decode.HoldsHead .bits64 a (e.take n) → verdict = .error .truncated) ∧
      (config.cacheEntries ≤ 2 ^ 63 → s.thread.halted = none → s.thread.registers.rip = a →
        m.EndsAfter a (e.take n) →
        ∃ r, s.core.step s.thread (some m) = .ok r ∧ r.memory = m ∧
          (verdict = .error .truncated →
            let fault := Fault.memory (m.fetchFault (a + BitVec.ofNat 64 n))
            r.result = .faulted fault a ∧ r.thread = s.thread.deliver ⟨fault, a⟩) ∧
          (verdict = .error .invalidOpcode →
            let reason := HaltReason.decode a (e.take n) .invalidOpcode
            r.result = .halted reason ∧ r.thread = { s.thread with halted := some reason })) := by
  intro s m verdict
  obtain ⟨hverdict, htruncated⟩ := decode_take hdecode hlength hn
  refine ⟨hverdict, htruncated, fun hhead ↦ ?_, fun hsize ht hrip hends ↦ ?_⟩
  · exact htruncated.mpr (.inr (zerosComplete_of_head hdecode hlength hhead))
  · obtain ⟨⟨hcoherent, hwellFormed⟩, hplaced⟩ :=
      coherent_play config windows history k t commands
    have hcount : (e.take n).length = n := by
      rw [List.length_take]
      omega
    have hshort : (e.take n).length < Decode.maxLength := by
      have hmax := (attempt_of_encoding hdecode hlength).1
      omega
    subst hrip
    have hstep := Core.step_of_endsAfter hcoherent (hplaced hsize) (hwellFormed.memory k) ht hends
      hshort hverdict
    rwa [hcount] at hstep

/-- The end of a page of code, where a string of bytes is stored, and nothing mapped behind it. -/
def endOfCode (bytes : List UInt8) : List Action :=
  [.request 0 (.map 0x1000 0x1000 .readExecute .anonymous),
    .request 0 (.poke (0x2000 - BitVec.ofNat 64 bytes.length) bytes)]

/-- A thread about to execute these bytes, on a core that was just set up. -/
def atEndOfCode (bytes : List UInt8) : Session where
  core := .ofConfig {}
  thread := { tid := 1, registers := .start (0x2000 - BitVec.ofNat 64 bytes.length) 0 }
  world := (World.start fun _ ↦ {}).after (endOfCode bytes)

/-- An encoding is known by its length. -/
theorem exists_of_length {a : Address} {e : List UInt8} {n : Nat}
    (h : (decode .bits64 a e).map Instruction.length = .ok n) :
    ∃ i, decode .bits64 a e = .ok i ∧ i.length = n := by
  cases hdecode : decode .bits64 a e with
  | error error =>
    rw [hdecode] at h
    cases h
  | ok i =>
    rw [hdecode] at h
    exact ⟨i, rfl, Except.ok.inj h⟩

/-- A move of a constant of which two bytes are on the page of code. The opcode is its head. -/
theorem step_atEndOfCode :
    let s := atEndOfCode [0xb8, 0x01]
    decode .bits64 0x1ffe [0xb8, 0x01] = .error .truncated ∧
      ∃ r, s.core.step s.thread (some (s.world.memory 0)) = .ok r ∧
        r.result = .faulted (.memory (.unmapped 0x2000 .execute)) 0x1ffe := by
  intro s
  obtain ⟨i, hdecode, hlength⟩ := exists_of_length (a := 0x1ffe)
    (e := [0xb8, 0x01, 0, 0, 0]) (n := 5) (by decide +kernel)
  obtain ⟨_, _, hhead, hstep⟩ := step_of_cut_off {} (fun _ ↦ {}) (endOfCode [0xb8, 0x01]) 0 s.thread
    [] hdecode hlength (n := 2) (by decide)
  have htruncated := hhead ⟨_, _, rfl⟩
  obtain ⟨r, hr, _, hfault, _⟩ := hstep (by decide) rfl rfl
    ⟨by decide +kernel, by decide +kernel⟩
  refine ⟨htruncated, r, hr, (hfault htruncated).1.trans ?_⟩
  decide +kernel

/-- A locked exchange of which two bytes are on the page of code, the prefix and the escape byte.
The zeros that are tried in place of its opcode stand for an operation that cannot be locked: the
window counts as an invalid opcode, and the step ends the thread. -/
theorem halts_of_cut_off :
    (∃ i, decode .bits64 0x1ffe [0xf0, 0x0f, 0xb1, 0x0f] = .ok i ∧ i.length = 4) ∧
      decode .bits64 0x1ffe [0xf0, 0x0f] = .error .invalidOpcode ∧
      ((atEndOfCode [0xf0, 0x0f]).core.step (atEndOfCode [0xf0, 0x0f]).thread
          (some ((atEndOfCode [0xf0, 0x0f]).world.memory 0))).map Core.Run.result =
        .ok (.halted (.decode 0x1ffe [0xf0, 0x0f] .invalidOpcode)) := by
  refine ⟨exists_of_length ?_, ?_, ?_⟩
  · decide +kernel
  · decide +kernel
  · decide +kernel

end Session

end LongMode
