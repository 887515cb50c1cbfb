import LongMode.Proofs.Core.Attempts
import LongMode.Proofs.Core.Sessions
import LongMode.Proofs.Machine.Confined

/-!
Privileged registers are out of a program's reach, however it is stepped and run. One attempt at an
instruction leaves them as they were, and so does a run, whatever the core remembers and however the
run is cut into blocks (`Core.confines_run`). In a session in which the host does not change the
thread itself they keep their first values throughout (`Session.confines_play`).
-/

set_option autoImplicit false
set_option relaxedAutoImplicit false

namespace LongMode

/-- A thread that came out of another by executing instructions. Bit 1 of its flag word is set as
soon as one of them completed. -/
structure Thread.Confines (t t' : Thread) : Prop where
  registers : t.registers.Confines t'.registers
  retired_le : t.retired ≤ t'.retired
  fixed : t.retired < t'.retired → t'.registers.rflags.getLsbD 1 = true

namespace Thread.Confines

variable {t t' : Thread} {m : Memory}

theorem refl (t : Thread) : t.Confines t :=
  ⟨.refl _, Nat.le_refl _, fun h ↦ absurd h (Nat.lt_irrefl _)⟩

/-- What a thread keeps in its queue, and whether it has ended, does not matter. -/
theorem congr {t'' : Thread} (h : t.Confines t') (hregisters : t''.registers = t'.registers)
    (hretired : t''.retired = t'.retired) : t.Confines t'' := by
  obtain ⟨hconfines, hle, hfixed⟩ := h
  rw [← hregisters] at hconfines hfixed
  rw [← hretired] at hle hfixed
  exact ⟨hconfines, hle, hfixed⟩

theorem haltOnDecode (h : t.Confines t') (a : Address) (bytes : List UInt8) (error : DecodeError) :
    t.Confines (t'.haltOnDecode m a bytes error).thread := by
  rw [Thread.haltOnDecode, halt]
  cases t'.isHalted with
  | true => exact h
  | false => exact h.congr rfl rfl

theorem raise (h : t.Confines t') (fault : Fault) (a : Address) :
    t.Confines (t'.raise m fault a).thread := by
  unfold Thread.raise
  split
  · exact h.haltOnDecode a _ _
  · rw [deliver_eq]
    exact h.congr rfl rfl

theorem abandon (h : t.Confines t') (stop : Stop) (a : Address) :
    t.Confines (t'.abandon m stop a).thread := by
  cases stop with
  | fault fault => exact h.raise fault a
  | panic p => exact h

theorem execute (h : t.Confines t') (i : Instruction) : t.Confines (t'.execute m i).thread := by
  rw [Thread.execute]
  split
  · exact h.abandon _ _
  · rename_i done after hdone
    have hconfines := Machine.confines_execute h.registers hdone
    obtain ⟨_, hflags⟩ := Machine.registers_execute hdone
    refine ⟨hconfines, Nat.le_succ_of_le h.retired_le, fun _ ↦ ?_⟩
    change done.registers.rflags.getLsbD 1 = true
    rw [hflags, RegisterFile.flags, BitVec.getLsbD_or]
    exact Bool.or_true _

theorem attempt {e : Execution} (h : t.Confines t') (he : t'.Attempt m e) :
    t.Confines e.thread := by
  cases he with
  | execute i => exact h.execute i
  | raise fault => exact h.raise _ _
  | halt bytes error => exact h.haltOnDecode _ _ _
  | panic p => exact h

end Thread.Confines

namespace Core

theorem inductive_confines (t : Thread) : Run.Inductive fun r ↦ t.Confines r.thread where
  extend _ _ _ hr _ he := hr.attempt he
  core _ _ hr := hr

variable {c : Core} {t t' : Thread} {m : Memory} {r : Run}

theorem confines_run (h : t.Confines t') {budget : Nat} (hrun : c.run t' (some m) budget = .ok r) :
    t.Confines r.thread :=
  (inductive_confines t).run hrun h

theorem confines_step (h : t.Confines t') (hstep : c.step t' (some m) = .ok r) :
    t.Confines r.thread := by
  obtain ⟨_, m', hm, rfl⟩ := step_eq_ok.mp hstep
  exact h.attempt (attempt_stepOne c t' m')

end Core

namespace Session

variable {s : Session} {t : Thread}

/-- A command that the host does not answer by changing the thread leaves it confined. -/
theorem confines_perform (k : Nat) {command : Command} (hcommand : ∀ f, command ≠ .host f)
    (h : t.Confines s.thread) : t.Confines (s.perform Core.run k command).2.thread := by
  have hresume (report : Core.Run → Report) {outcome : Except SchedulingError Core.Run}
      (houtcome : ∀ r, outcome = .ok r → t.Confines r.thread) :
      t.Confines (s.resume k report outcome).2.thread := by
    cases outcome with
    | error error => exact h
    | ok r => exact houtcome r rfl
  cases command with
  | step => exact hresume _ fun _ hstep ↦ Core.confines_step h hstep
  | run budget => exact hresume _ fun _ hrun ↦ Core.confines_run h hrun
  | flush => exact h
  | host f => exact absurd rfl (hcommand f)
  | act action => exact h

theorem confines_play (k : Nat) (commands : List Command) (hcommands : ∀ f, .host f ∉ commands)
    (h : t.Confines s.thread) : t.Confines (s.play Core.run k commands).2.thread := by
  induction commands generalizing s with
  | nil => exact h
  | cons command commands ih =>
    have hcommand (f : Thread → Thread) : command ≠ .host f := fun heq ↦
      hcommands f (heq ▸ List.mem_cons_self)
    have hrest (f : Thread → Thread) : .host f ∉ commands := fun hmem ↦
      hcommands f (List.mem_cons_of_mem _ hmem)
    exact ih hrest (confines_perform k hcommand h)

/-- Whatever a core is set up for and remembers, and however a thread is stepped and run on it while
memory changes, in the end the segment selectors and the bases of FS and GS are what they were, each
bit of the flag word has its first value unless the program may load it or it is bit 1, which is set
once an instruction completed, and the reserved half of the vector control word is clear if it was.
-/
theorem privileged_play (s : Session) (k : Nat) (commands : List Command)
    (hcommands : ∀ f, .host f ∉ commands) :
    let before := s.thread
    let after := (s.play Core.run k commands).2.thread
    after.registers.segments = before.registers.segments ∧
      after.registers.fsBase = before.registers.fsBase ∧
      after.registers.gsBase = before.registers.gsBase ∧
      (∀ i, i ≠ 1 → (∀ flag ∈ Flag.userWritable, i ≠ flag.position) →
        after.registers.rflags.getLsbD i = before.registers.rflags.getLsbD i) ∧
      (before.retired < after.retired → after.registers.rflags.getLsbD 1 = true) ∧
      (before.registers.mxcsr.toNat < 2 ^ 16 → after.registers.mxcsr.toNat < 2 ^ 16) := by
  intro before after
  have hconfines : before.Confines after := confines_play k commands hcommands (.refl before)
  obtain ⟨hsegments, hfs, hgs, hflags, hcontrol⟩ := hconfines.registers
  refine ⟨hsegments, hfs, hgs, fun i hone hother ↦ hflags i ?_, hconfines.fixed, hcontrol⟩
  rw [Flags.reachable, List.mem_cons, List.mem_map]
  rintro (heq | ⟨flag, hflag, heq⟩)
  · exact hone heq
  · exact hother flag hflag heq.symm

/-- A thread about to pop a flag word in which every bit is set. -/
def poppingSession : Session where
  core := .ofConfig {}
  thread := { tid := 1, registers := .start 0x1000 0x2000 }
  world := (World.start fun _ ↦ {}).after
    [.request 0 (.map 0x1000 0x1000 .readExecute .anonymous),
      .request 0 (.poke 0x1000 [0x9d]),
      .request 0 (.map 0x2000 0x1000 .readWrite .anonymous),
      .request 0 (.poke 0x2000 (List.replicate 8 0xff))]

/-- It completes the pop and gets the direction flag, but neither the upper bit of the privilege
level, bit 13, nor the nested task flag, bit 14. -/
theorem privileged_poppingSession :
    let after := (poppingSession.play Core.run 0 [.step]).2.thread
    (∀ f, .host f ∉ [Command.step]) ∧ after.registers.rflags.get .direction = true ∧
      after.registers.rflags.getLsbD 1 = true ∧ after.registers.rflags.getLsbD 13 = false ∧
      after.registers.rflags.getLsbD 14 = false := by
  have hcommands (f : Thread → Thread) : .host f ∉ [Command.step] := by simp
  obtain ⟨_, _, _, hflags, hfixed, _⟩ := privileged_play poppingSession 0 [.step] hcommands
  have hretired := hfixed (by decide +kernel)
  exact ⟨hcommands, by decide +kernel, hretired, hflags 13 (by decide) (by decide),
    hflags 14 (by decide) (by decide)⟩

end Session

end LongMode
