import LongMode.Proofs.Core.Truncation
import LongMode.Proofs.Decode.ControlForms

/-!
Steps through instructions of control in 64-bit code, against what their encodings ask for
(`controlForm?`). A step has the effect of the encoding wherever the form is carried out as it is
encoded, and otherwise the effect of the form that is carried out in its place
(`Session.step_of_control`). The two differ for a loop that counts in 32 bits, for the end of a
frame of 16 bits, and for jumps and calls through a far pointer, which are carried out as near ones
(`Session.not_obeys`).
-/

set_option autoImplicit false
set_option relaxedAutoImplicit false

namespace LongMode

/-- What becomes of a thread whose instruction has an effect on registers and memory: it goes on
with them, or the fault is reported and memory is left alone. -/
def Thread.settle (t : Thread) (m : Memory) :
    Except Fault (RegisterFile × Memory) → Thread × Memory × StepResult
  | .ok (r, memory) => (t.retire r, memory, .completed)
  | .error f =>
    let e := t.raise m f t.registers.rip
    (e.thread, m, e.result)

/-- A thread, its memory and what became of its step. -/
def Core.Run.outcome (r : Core.Run) : Thread × Memory × StepResult :=
  (r.thread, r.memory, r.result)

namespace Core

variable {c : Core} {m : Memory} {t : Thread} {i : Instruction}

/-- A step through an instruction that is known by its effect. -/
theorem step_of_hasEffect (hc : c.Coherent m.frames) (hplaced : c.Placed) (hm : m.WellFormed)
    (ht : t.halted = none) (hdecodes : m.Decodes i) (hrip : t.registers.rip = i.address)
    {effect : Except Fault (RegisterFile × Memory)}
    (h : Machine.HasEffect { registers := t.registers, memory := m, retired := t.retired } i
      effect) :
    ∃ r, c.step t (some m) = .ok r ∧ r.outcome = t.settle m effect := by
  have hstep := stepOne_of_placed hc hm hplaced t
  rw [interpret_of_decodes hdecodes hrip] at hstep
  refine ⟨_, step_eq_ok.mpr ⟨ht, m, rfl, rfl⟩, ?_⟩
  rw [hstep]
  cases effect with
  | error f =>
    have hexecute : t.execute m i = t.raise m f i.address := by
      rw [Thread.execute, h]
      rfl
    rw [hexecute, hrip.symm]
    change (_, (t.raise m f t.registers.rip).memory, _) = _
    rw [Thread.memory_raise]
    rfl
  | ok after =>
    obtain ⟨done, hexecute, hregisters, hsyscall⟩ := h
    simp only [Thread.execute, hexecute, hsyscall, hregisters]
    rfl

end Core

namespace Session

/-- A string of bytes that is one instruction of control of 64-bit code. Where a thread is about to
execute it, on any core whose decode cache is for at most 2^63 instructions and after whatever the
thread and the machine did, a step is accepted. It has the effect that the encoding asks for if the
form is one that is carried out as it is encoded: no jump or call through a far pointer, which is to
be refused, and no loop and no end of a frame with another width than 64 bits. In any case it has
the effect of the form that is carried out in place of it. -/
theorem step_of_control (config : CoreConfig) (windows : Nat → MapWindow) (history : List Action)
    (k : Nat) (t : Thread) (commands : List Command) {a : Address} {e : List UInt8}
    {i : Instruction} (hdecode : decode .bits64 a e = .ok i) (hlength : i.length = e.length)
    (hcontrol : i.mnemonic.isControl) :
    let s := (Session.play Core.run k
      ⟨.ofConfig config, t, (World.start windows).after history⟩ commands).2
    let m := s.world.memory k
    let next := a + BitVec.ofNat 64 e.length
    ∃ form, controlForm? next e = some form ∧
      (config.cacheEntries ≤ 2 ^ 63 → s.thread.halted = none → s.thread.registers.rip = a →
        (∀ j, j < e.length → m.code? (a.toNat + j) = e[j]?) →
        let effect := ControlForm.effect next s.thread.registers m
        ∃ r, s.core.step s.thread (some m) = .ok r ∧
          (form.isKept → r.outcome = s.thread.settle m (effect form)) ∧
          r.outcome = s.thread.settle m (effect form.executed)) := by
  intro s m next
  have haddress : i.address = a := (isRead_of_decode hdecode).address
  have hnext : i.next = next := by
    rw [Instruction.next, haddress, hlength]
  obtain ⟨form, hform, hcarries, hlock⟩ := exists_controlForm hdecode hlength hcontrol
  rw [hnext] at hform
  refine ⟨form, hform, ?_⟩
  intro hsize ht hrip hcode effect
  obtain ⟨⟨hcoherent, hwellFormed⟩, hplaced⟩ := coherent_play config windows history k t commands
  have hdecodes : m.Decodes i := by
    subst haddress
    exact Memory.decodes_of_code? hdecode (hlength ▸ hcode)
  have heffect := Machine.hasEffect_of_carries
    (m := { registers := s.thread.registers, memory := m, retired := s.thread.retired })
    hlock hcarries
  rw [hnext] at heffect
  obtain ⟨r, hstep, houtcome⟩ := Core.step_of_hasEffect hcoherent (hplaced hsize)
    (hwellFormed.memory k) ht hdecodes (hrip.trans haddress.symm) heffect
  refine ⟨r, hstep, fun hkept ↦ ?_, houtcome⟩
  rw [houtcome, form.executed_eq_self_iff.mpr hkept]

/-- A page of code that begins with these bytes. -/
def startOfCode (bytes : List UInt8) : List Action :=
  [.request 0 (.map 0x1000 0x1000 .readExecute .anonymous), .request 0 (.poke 0x1000 bytes)]

/-- A thread about to execute these bytes with a value in one of its registers, on a core that was
just set up. -/
def atStartOfCode (bytes : List UInt8) (index : Fin 16) (value : BitVec 64) : Session where
  core := .ofConfig {}
  thread := { tid := 1, registers := (RegisterFile.start 0x1000 0).set index value }
  world := (World.start fun _ ↦ {}).after (startOfCode bytes)

/-- A loop over itself. The counter is zero before and wraps around. -/
theorem step_of_control_loop :
    let s := atStartOfCode [0xe2, 0xfe] Register.rcx 0
    let m := s.world.memory 0
    ∃ r, s.core.step s.thread (some m) = .ok r ∧
      r.outcome = s.thread.settle m
        ((ControlForm.loop .always .qword (-2)).effect 0x1002 s.thread.registers m) := by
  intro s m
  obtain ⟨i, hdecode, hlength⟩ := exists_of_length (a := 0x1000) (e := [0xe2, 0xfe]) (n := 2)
    (by decide +kernel)
  have hcontrol : i.mnemonic.isControl := by
    have h : (decode .bits64 0x1000 [0xe2, 0xfe]).toOption.map (·.mnemonic.isControl) =
        some true := by
      decide +kernel
    rw [hdecode] at h
    exact Option.some.inj h
  obtain ⟨form, hform, hstep⟩ := step_of_control {} (fun _ ↦ {}) (startOfCode [0xe2, 0xfe]) 0
    s.thread [] hdecode hlength hcontrol
  obtain rfl : ControlForm.loop .always .qword (-2) = form := Option.some.inj hform
  obtain ⟨r, hr, hkept, _⟩ := hstep (by decide) rfl rfl (by decide +kernel)
  exact ⟨r, hr, hkept rfl⟩

/-! ### Forms that are not carried out as they are encoded -/

/-- A step does what an encoding asks for, or refuses it as unsupported. -/
def Obeys (s : Session) (e : List UInt8) : Prop :=
  ∀ i form r, decode .bits64 s.thread.registers.rip e = .ok i →
    controlForm? i.next e = some form →
    s.core.step s.thread (some (s.world.memory 0)) = .ok r →
    r.outcome = s.thread.settle (s.world.memory 0)
        (form.effect i.next s.thread.registers (s.world.memory 0)) ∨
      ∃ a bytes, r.result = .halted (.decode a bytes .unsupported)

/-- What a thread has after a step through an encoding, and after what the encoding asks for. -/
def comparison (s : Session) (e : List UInt8) (look : Thread → BitVec 64) :
    Option (StepResult × BitVec 64 × BitVec 64) := do
  let i ← (decode .bits64 s.thread.registers.rip e).toOption
  let form ← controlForm? i.next e
  let r ← (s.core.step s.thread (some (s.world.memory 0))).toOption
  let asked := s.thread.settle (s.world.memory 0)
    (form.effect i.next s.thread.registers (s.world.memory 0))
  return (r.result, look r.thread, look asked.1)

/-- A step that completes with something else than what is asked for. -/
theorem not_obeys_of_comparison {s : Session} {e : List UInt8} {look : Thread → BitVec 64}
    {done asked : BitVec 64} (h : s.comparison e look = some (.completed, done, asked))
    (hne : done ≠ asked) : ¬s.Obeys e := by
  intro hobeys
  simp only [comparison, Option.bind_eq_bind, Option.bind_eq_some_iff, Option.pure_def,
    Option.some.injEq, Prod.mk.injEq] at h
  obtain ⟨i, hdecode, form, hform, r, hstep, hresult, hdone, hasked⟩ := h
  have hok {ε α : Type} {x : Except ε α} {v : α} (hx : x.toOption = some v) : x = .ok v := by
    cases x with
    | error e => cases hx
    | ok v' => rw [Option.some.inj hx]
  obtain houtcome | ⟨a, bytes, hhalted⟩ := hobeys i form r (hok hdecode) hform (hok hstep)
  · refine hne (hdone.symm.trans (Eq.trans ?_ hasked))
    exact congrArg (fun outcome ↦ look outcome.1) houtcome
  · rw [hresult] at hhalted
    cases hhalted

/-- Three encodings that a step completes without doing what they ask for: a loop with an
address-size prefix counts in all of its register and not in the lower half, the end of a frame with
an operand-size prefix pops eight bytes, and a jump through a far pointer goes somewhere. -/
theorem not_obeys :
    ¬(atStartOfCode [0x67, 0xe2, 0x05] Register.rcx 0x100000001).Obeys [0x67, 0xe2, 0x05] ∧
      ¬(atStartOfCode [0x66, 0xc9] Register.rbp 0x1010).Obeys [0x66, 0xc9] ∧
      ¬(atStartOfCode [0xff, 0x28] Register.rax 0x1010).Obeys [0xff, 0x28] := by
  have hcounter : (atStartOfCode [0x67, 0xe2, 0x05] Register.rcx 0x100000001).comparison
      [0x67, 0xe2, 0x05] (·.registers.get Register.rcx) = some (.completed, 0x100000000, 0) := by
    decide +kernel
  have hframe : (atStartOfCode [0x66, 0xc9] Register.rbp 0x1010).comparison
      [0x66, 0xc9] (·.registers.get Register.rsp) = some (.completed, 0x1018, 0x1012) := by
    decide +kernel
  have hfar : (atStartOfCode [0xff, 0x28] Register.rax 0x1010).comparison
      [0xff, 0x28] (·.registers.rip) = some (.completed, 0, 0x1000) := by
    decide +kernel
  refine ⟨not_obeys_of_comparison hcounter ?_, not_obeys_of_comparison hframe ?_,
    not_obeys_of_comparison hfar ?_⟩
  · decide
  · decide
  · decide

end Session

end LongMode
