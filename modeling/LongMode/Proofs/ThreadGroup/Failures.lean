import LongMode.Proofs.ThreadGroup.Endings

/-!
Processes that faults are to end. A thread that ends because of a fault ends the process with the
signal of the fault, unless it was asked to end before, and no thread runs a batch for which it has
not looked yet (`ThreadGroup.stopped_of_fault`).

This does not hold of a thread that ends because its code cannot be decoded, although that counts as
a signal as well: a batch that ends so is a result of another kind, which the process does nothing
about. The other threads go on, and the process may be given the status zero
(`ThreadGroup.not_stopped_of_decode`).
-/

set_option autoImplicit false
set_option relaxedAutoImplicit false

namespace LongMode

/-- The signal that the failure of a thread counts as; none if it did not end by failing. -/
def HaltReason.signal? : HaltReason → Option Signal
  | .fault f _ => some f.signal
  | .decode _ _ _ => some .illegalInstruction
  | .exited _ | .killed => none

/-- The status of a signal is a low byte. -/
theorem lowStatus_signal (s : Signal) : lowStatus s.status = s.status := by
  cases s <;> rfl

namespace Worker

variable {p : ThreadGroup} {w w' : Worker} {status : Option Int}

/-- A thread that ends because of a fault asks the process to end if faults are to do so. -/
theorem Move.status_of_fault (h : w.Move p status w') (hpolicy : p.settings.faultPolicy = .killProcess)
    (hrunning : w.thread.halted = none) {fault : Fault} {a : Address}
    (hfault : w'.thread.halted = some (.fault fault a)) : status = some (fault.signal.status : Int) := by
  cases h with
  | leave _ _ _ => nomatch hrunning.symm.trans hfault
  | kill _ _ _ => nomatch hfault
  | clear _ _ _ => nomatch hrunning.symm.trans hfault
  | batch _ _ _ _ hsettles =>
    obtain ⟨_, _, _, hdecode⟩ := hsettles.exists_decode hfault
    nomatch hdecode
  | resume _ _ _ _ => nomatch hrunning.symm.trans hfault
  | exit _ _ _ _ => nomatch hfault
  | exitProcess _ _ _ _ => nomatch hfault
  | panic _ _ => nomatch hrunning.symm.trans hfault
  | fail fault' a' _ =>
    obtain ⟨rfl, rfl⟩ := HaltReason.fault.inj (Option.some.inj hfault)
    rw [hpolicy]

/-- A thread that ends because its code cannot be decoded asks for nothing. -/
theorem Move.status_of_decode (h : w.Move p status w') {a : Address} {bytes : List UInt8}
    {error : DecodeError} (hdecode : w'.thread.halted = some (.decode a bytes error)) :
    status = none := by
  cases h with
  | exitProcess _ _ _ _ => nomatch hdecode
  | fail _ _ _ => nomatch hdecode
  | _ => rfl

end Worker

namespace ThreadGroup

variable {p : ThreadGroup} {i : Nat} {w w' : Worker}

/-- A process that is to end with a status: whatever happens next, that is its status, and no thread
gets to run a batch by looking. -/
structure Stopped (p : ThreadGroup) (status : Nat) : Prop where
  groupStatus_play (later : List Turn) : (p.play later).groupStatus = some status
  exit_status_play (later : List Turn) : (p.play later).exit.status = status
  wait_play (later : List Turn) (e : GroupExit) : (p.play later).wait = .ok e → e.status = status
  isCleared_of_turn (later : List Turn) (turn : Turn) (j : Nat) :
    ((p.play later).turn turn).isCleared j = true → (p.play later).isCleared j = true

theorem stopped_of_groupStatus (hp : p.Sound) {status : Nat} (h : p.groupStatus = some status) :
    p.Stopped status := by
  have hstays (later : List Turn) : (p.play later).groupStatus = some status := by
    rw [groupStatus_play hp, h]
    rfl
  have hexit (later : List Turn) : (p.play later).exit.status = status := by
    simp [exit, hstays later]
  refine ⟨hstays, hexit, fun later e hwait ↦ ?_, fun later turn j hcleared ↦ ?_⟩
  · obtain htold | ⟨w, -, -, hpanicked⟩ := wait_eq (p.play later)
    · rw [← hexit later, Except.ok.inj (hwait.symm.trans htold)]
    · cases hwait.symm.trans hpanicked
  have hlater := hp.play later
  refine (ThreadGroup.isCleared_of_turn hlater ?_ turn hcleared).1
  rw [hlater.exiting_eq, hstays later, Option.isSome_some]

/-- A process keeps its settings. -/
theorem settings_play (hp : p.Sound) (turns : List Turn) : (p.play turns).settings = p.settings := by
  induction turns generalizing p with
  | nil => rfl
  | cons turn turns ih => exact (ih (hp.turn turn)).trans (turned_turn hp turn).settings_eq

/-- A thread that ends in a turn was moved by it. -/
theorem Turned.move_of_ended {turn : Turn} {after : ThreadGroup} (h : p.Turned turn after)
    (hw : p.workers[i]? = some w) (hw' : after.workers[i]? = some w')
    (hrunning : w.thread.halted = none) (hended : w'.thread.halted.isSome) :
    w.Move p (p.exit? turn) w' := by
  obtain ⟨v, hv, hcase⟩ := h.worker i w hw
  obtain rfl := Option.some.inj (hv.symm.trans hw')
  obtain ⟨rfl, _⟩ | ⟨_, hmove⟩ := hcase
  · rw [hrunning] at hended
    nomatch hended
  · exact hmove

/-- When faults are to end a process, and a thread ends in a turn because of one, the process is to
end with the signal of the fault, or with what it was asked to end with before. A thread whose code
cannot be decoded leaves the process as it was. -/
theorem stopped_of_fault (settings : Settings) (memory : Memory) (kernel : Linux.Kernel)
    (turns : List Turn) (turn : Turn) (i : Nat) (w w' : Worker)
    (hpolicy : settings.faultPolicy = .killProcess)
    (hw : ((start settings memory kernel).play turns).workers[i]? = some w)
    (hw' : (((start settings memory kernel).play turns).turn turn).workers[i]? = some w')
    (hrunning : w.thread.halted = none) :
    (∀ fault a, w'.thread.halted = some (.fault fault a) →
      (((start settings memory kernel).play turns).turn turn).Stopped
        (((start settings memory kernel).play turns).groupStatus.getD fault.signal.status)) ∧
    ∀ a bytes error, w'.thread.halted = some (.decode a bytes error) →
      (((start settings memory kernel).play turns).turn turn).groupStatus =
          ((start settings memory kernel).play turns).groupStatus ∧
        (((start settings memory kernel).play turns).turn turn).exiting =
          ((start settings memory kernel).play turns).exiting := by
  have hp := sound_play settings memory kernel turns
  have hsettings := settings_play (sound_start settings memory kernel) turns
  generalize (start settings memory kernel).play turns = p at hp hsettings hw hw' ⊢
  have hturned := turned_turn hp turn
  refine ⟨fun fault a hfault ↦ ?_, fun a bytes error hdecode ↦ ?_⟩
  · have hmove := hturned.move_of_ended hw hw' hrunning (by rw [hfault]; rfl)
    have hkill : p.settings.faultPolicy = .killProcess := (congrArg _ hsettings).trans hpolicy
    have hasked := hmove.status_of_fault hkill hrunning hfault
    refine stopped_of_groupStatus (hp.turn turn) ?_
    rw [hturned.groupStatus_eq, hasked, Option.map_some, lowStatus_signal]
    cases p.groupStatus <;> rfl
  · have hmove := hturned.move_of_ended hw hw' hrunning (by rw [hdecode]; rfl)
    have hasked := hmove.status_of_decode hdecode
    rw [hturned.groupStatus_eq, hturned.exiting_eq, hasked]
    simp

/-- A process that faults are to end, and whose threads look after every fourth instruction. -/
def fragile (memory : Memory) : ThreadGroup :=
  start { batchSize := 4, faultPolicy := .killProcess } memory { heap := ⟨0x5000, 0x5000, 0x5000⟩ }

/-- A thread without code ends its process with a segmentation fault. -/
theorem stopped_fragile :
    ((fragile {}).play [.spawn (.start 0x1000 0), .advance 0, .advance 0, .advance 0]).Stopped 139 := by
  let p := (fragile {}).play [.spawn (.start 0x1000 0), .advance 0, .advance 0]
  have hbefore : p.workers[0]?.map (·.thread.halted) = some none := by decide +kernel
  have hafter : (p.turn (.advance 0)).workers[0]?.map (·.thread.halted) =
      some (some (.fault (.memory (.unmapped 0x1000 .execute)) 0x1000)) := by decide +kernel
  obtain ⟨w, hw, hrunning⟩ := Option.map_eq_some_iff.mp hbefore
  obtain ⟨w', hw', hfault⟩ := Option.map_eq_some_iff.mp hafter
  exact (stopped_of_fault _ _ _ _ _ 0 w w' rfl hw hw' hrunning).1 _ _ hfault

/-- Code that ends a thread with the status zero, and behind it a byte that is no instruction. -/
def exitCode : Memory :=
  ((World.start fun _ ↦ {}).after
    [.request 0 (.map 0x1000 0x1000 .readExecute .anonymous),
      .request 0 (.poke 0x1000 [0xb8, 60, 0, 0, 0, 0x31, 0xff, 0x0f, 0x05, 0x06])]).memory 0

/-- Not every thread that fails ends its process. Of two threads the first exits with the status
zero, and the second comes to a byte that is no instruction: the process is given the status zero.
-/
theorem not_stopped_of_decode :
    ¬ ∀ (settings : Settings) (memory : Memory) (kernel : Linux.Kernel) (turns : List Turn)
      (turn : Turn) (i : Nat) (w w' : Worker) (reason : HaltReason) (signal : Signal),
      settings.faultPolicy = .killProcess →
      ((start settings memory kernel).play turns).workers[i]? = some w →
      (((start settings memory kernel).play turns).turn turn).workers[i]? = some w' →
      w.thread.halted = none → w'.thread.halted = some reason → reason.signal? = some signal →
      (((start settings memory kernel).play turns).turn turn).Stopped
        (((start settings memory kernel).play turns).groupStatus.getD signal.status) := by
  intro h
  let p := (fragile exitCode).play ([.spawn (.start 0x1000 0), .spawn (.start 0x1009 0)] ++
    [.advance 0, .advance 0, .advance 0, .advance 0] ++ [.advance 1])
  have hbefore : p.workers[1]?.map (·.thread.halted) = some none := by decide +kernel
  have hafter : (p.turn (.advance 1)).workers[1]?.map (·.thread.halted) =
      some (some (.decode 0x1009 (0x06 :: List.replicate 14 0) .invalidOpcode)) := by decide +kernel
  obtain ⟨w, hw, hrunning⟩ := Option.map_eq_some_iff.mp hbefore
  obtain ⟨w', hw', hdecode⟩ := Option.map_eq_some_iff.mp hafter
  have hstatus : ((p.turn (.advance 1)).play [.advance 1, .advance 1]).exit.status =
      p.groupStatus.getD Signal.illegalInstruction.status :=
    (h _ _ _ _ _ 1 w w' _ _ rfl hw hw' hrunning hdecode rfl).exit_status_play _
  have hzero : ((p.turn (.advance 1)).play [.advance 1, .advance 1]).exit.status = 0 := by
    decide +kernel
  have hnone : p.groupStatus = none := by decide +kernel
  rw [hzero, hnone] at hstatus
  nomatch hstatus

end ThreadGroup

end LongMode
