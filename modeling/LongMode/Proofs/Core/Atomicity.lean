import LongMode.Proofs.Core.Places
import LongMode.Proofs.Decode.Decoder
import LongMode.Proofs.Machine.Execute
import LongMode.Proofs.Memory.World

/-!
An instruction that does not complete has changed nothing. Memory is changed in place while an
instruction runs, and only the registers are a copy, so this rests on every instruction committing
(`LongMode.Proofs.Machine.Execute`) and on the decoder, from which a core has all its instructions,
whether it has decoded them just now or remembers them (`Core.Decoded`).

The result is `Core.step_eq_of_fault`: if a step faults or ends the thread, then memory and
registers are what they were, and the thread has one more pending fault, or a reason to have ended.
-/

set_option autoImplicit false
set_option relaxedAutoImplicit false

namespace LongMode

/-! ### What does not complete -/

/-- An attempt at the instruction at an address that does not complete leaves memory alone, and
changes in the thread only the queue of faults or the reason to have ended. -/
structure Execution.Commits (e : Execution) (t : Thread) (m : Memory) (a : Address) : Prop where
  faulted (fault : Fault) (a' : Address) : e.result = .faulted fault a' →
    a' = a ∧ e.memory = m ∧ e.thread = t.deliver ⟨fault, a⟩
  halted (reason : HaltReason) : e.result = .halted reason →
    e.memory = m ∧ e.thread = { t with halted := some reason } ∧
      ∃ bytes error, reason = .decode a bytes error

namespace Thread

variable {t : Thread} {m : Memory} {a : Address}

theorem deliver_eq (t : Thread) (fault : PendingFault) :
    t.deliver fault = { t with
      pending := if t.pending.length < maxPending then t.pending ++ [fault] else t.pending } := by
  rw [deliver]
  by_cases hroom : t.pending.length < maxPending
  · rw [if_neg (Nat.not_le_of_lt hroom), if_pos hroom]
  · rw [if_pos (Nat.le_of_not_lt hroom), if_neg hroom]

theorem commits_haltOnDecode (ht : t.halted = none) (bytes : List UInt8) (error : DecodeError) :
    (t.haltOnDecode m a bytes error).Commits t m a := by
  have hthread : (t.haltOnDecode m a bytes error).thread =
      { t with halted := some (.decode a bytes error) } := by
    simp [haltOnDecode, halt, isHalted, ht, Except.toOption]
  refine ⟨fun fault a' h ↦ (nomatch h), fun reason h ↦ ?_⟩
  obtain rfl := StepResult.halted.inj h
  exact ⟨rfl, hthread, bytes, error, rfl⟩

theorem commits_raise (ht : t.halted = none) (fault : Fault) :
    (t.raise m fault a).Commits t m a := by
  unfold raise
  split
  · exact commits_haltOnDecode ht _ _
  · refine ⟨fun fault' a' h ↦ ?_, fun reason h ↦ (nomatch h)⟩
    obtain ⟨rfl, rfl⟩ := StepResult.faulted.inj h
    exact ⟨rfl, rfl, rfl⟩

theorem commits_panic (p : Panic) : (t.panic m p).Commits t m a :=
  ⟨fun _ _ h ↦ (nomatch h), fun _ h ↦ (nomatch h)⟩

theorem commits_abandon (ht : t.halted = none) (stop : Stop) :
    (t.abandon m stop a).Commits t m a := by
  cases stop with
  | fault fault => exact commits_raise ht fault
  | panic p => exact commits_panic p

theorem commits_execute (ht : t.halted = none) {i : Instruction} (hi : i.TradesGeneral) :
    (t.execute m i).Commits t m i.address := by
  rw [execute]
  split
  · rename_i stop after hexecute
    rw [Machine.memory_execute_of_error hi hexecute]
    exact commits_abandon ht stop
  · rename_i done after hexecute
    cases hsyscall : done.syscall with
    | false =>
      simp only [Bool.false_eq_true, if_false]
      exact ⟨fun _ _ h ↦ (nomatch h), fun _ h ↦ (nomatch h)⟩
    | true =>
      simp only [if_true]
      exact ⟨fun _ _ h ↦ (nomatch h), fun _ h ↦ (nomatch h)⟩

end Thread

/-! ### Where the instructions of a core come from -/

/-- Every remembered instruction came out of the decoder. -/
def DecodeCache.Decoded (c : DecodeCache) : Prop :=
  ∀ (n : Nat) (e : CacheEntry), c.entries[n]? = some e → e.instruction.TradesGeneral

namespace DecodeCache

variable {c c' : DecodeCache} {m : Memory} {a : Address} {found : Option Instruction}

theorem Decoded.examine (hc : c.Decoded) (place : Nat) (m : Memory) (a : Address) :
    (c.examine place m a).2.Decoded ∧
      ∀ i, (c.examine place m a).1 = some i → i.address = a ∧ i.TradesGeneral := by
  rw [DecodeCache.examine]
  split
  · exact ⟨hc, fun i h ↦ absurd h.symm (Option.some_ne_none i)⟩
  · rename_i e hentry
    split
    · exact ⟨hc, fun i h ↦ absurd h.symm (Option.some_ne_none i)⟩
    · rename_i haddress
      split
      · refine ⟨hc, fun i h ↦ ?_⟩
        obtain rfl := Option.some.inj h
        exact ⟨not_not.mp haddress, hc _ e hentry⟩
      · refine ⟨fun n e' he' ↦ ?_, fun i h ↦ absurd h.symm (Option.some_ne_none i)⟩
        simp only [Std.ExtTreeMap.getElem?_erase] at he'
        split at he'
        · cases he'
        · exact hc n e' he'

theorem Decoded.lookup (hc : c.Decoded) (h : c.lookup m a = .ok (found, c')) :
    c'.Decoded ∧ ∀ i, found = some i → i.address = a ∧ i.TradesGeneral := by
  have hexamined := hc.examine (c.index a) m a
  rw [← (lookup_eq_ok_iff.mp h).2] at hexamined
  exact hexamined

theorem Decoded.put (hc : c.Decoded) (place : Nat) {e : CacheEntry}
    (he : e.instruction.TradesGeneral) : (c.put place e).Decoded := by
  intro n e' he'
  simp only [DecodeCache.put, Std.ExtTreeMap.getElem?_insert] at he'
  split at he'
  · rw [← Option.some.inj he']
    exact he
  · exact hc n e' he'

end DecodeCache

namespace Core

/-- Every instruction in the decode cache came out of the decoder. -/
def Decoded (c : Core) : Prop :=
  ∀ cache, c.cache = some cache → cache.Decoded

variable {c c' : Core} {t : Thread} {m : Memory} {a : Address} {found : Option Instruction}

theorem decoded_lookup (hc : c.Decoded) (h : c.lookup m a = .ok (found, c')) :
    c'.Decoded ∧ ∀ i, found = some i → i.address = a ∧ i.TradesGeneral := by
  obtain ⟨-, rfl, rfl⟩ | ⟨cache, cache', hcache, hlookup, rfl⟩ := lookup_eq_ok h
  · exact ⟨hc, fun i h ↦ (nomatch h)⟩
  · obtain ⟨hdecoded, hfound⟩ := (hc cache hcache).lookup hlookup
    refine ⟨fun cache'' h ↦ ?_, hfound⟩
    rw [← Option.some.inj h]
    exact hdecoded

theorem decoded_remember (hc : c.Decoded) {stamp : CodeStamp} {i : Instruction}
    (hi : i.TradesGeneral) (h : c.remember stamp i = .ok c') : c'.Decoded := by
  obtain ⟨-, rfl⟩ | ⟨cache, cache', hcache, hinsert, rfl⟩ := remember_eq_ok h
  · exact hc
  · intro cache'' hcache''
    rw [← Option.some.inj hcache'', (DecodeCache.insert_eq_ok_iff.mp hinsert).2]
    exact (hc cache hcache).put _ hi

theorem decoded_fetch (hc : c.Decoded) (m : Memory) (a : Address) :
    (c.fetch m a).2.Decoded ∧
      ∀ i, (c.fetch m a).1 = .ok i → i.address = a ∧ i.TradesGeneral := by
  generalize hfetch : c.fetch m a = outcome
  cases fetches hfetch with
  | refused p hlookup => exact ⟨hc, fun i h ↦ (nomatch h)⟩
  | hit i c' hlookup =>
    obtain ⟨hdecoded, hfound⟩ := decoded_lookup hc hlookup
    exact ⟨hdecoded, fun i' h ↦ Except.ok.inj h ▸ hfound i rfl⟩
  | faulted c' fault hlookup => exact ⟨(decoded_lookup hc hlookup).1, fun i h ↦ (nomatch h)⟩
  | undecoded c' window stamp error hlookup =>
    exact ⟨(decoded_lookup hc hlookup).1, fun i h ↦ (nomatch h)⟩
  | read c' c'' window stamp i hlookup hread hdecode hremember =>
    have hisRead := isRead_of_decode hdecode
    refine ⟨decoded_remember (decoded_lookup hc hlookup).1 hisRead.tradesGeneral hremember, ?_⟩
    intro i' h
    obtain rfl := Except.ok.inj h
    exact ⟨hisRead.address, hisRead.tradesGeneral⟩

/-- Only fetching changes what a core remembers. -/
theorem core_stepOne (c : Core) (t : Thread) (m : Memory) :
    (c.stepOne t m).2 = (c.fetch m t.registers.rip).2 := by
  rw [stepOne]
  split
  · rename_i hfetch
    rw [hfetch]
  · rename_i hfetch
    rw [hfetch]
  · rename_i hfetch
    rw [hfetch]
  · rename_i hfetch
    rw [hfetch]

theorem decoded_stepOne (hc : c.Decoded) (t : Thread) (m : Memory) :
    (c.stepOne t m).2.Decoded := by
  rw [core_stepOne]
  exact (decoded_fetch hc m t.registers.rip).1

/-- An attempt at one instruction commits. -/
theorem commits_stepOne (hc : c.Decoded) (ht : t.halted = none) (m : Memory) :
    (c.stepOne t m).1.Commits t m t.registers.rip := by
  have hfound := (decoded_fetch hc m t.registers.rip).2
  rw [stepOne]
  split
  · rename_i i c' hresult
    rw [hresult] at hfound
    obtain ⟨haddress, htrades⟩ := hfound i rfl
    have hcommits := Thread.commits_execute (m := m) ht htrades
    rw [haddress] at hcommits
    exact hcommits
  · dsimp only
    exact Thread.commits_raise ht _
  · exact Thread.commits_haltOnDecode ht _ _
  · exact Thread.commits_panic _

/-! ### Runs -/

theorem cache_runInstructions (block : Block) (instructions : List Instruction) (budget : Nat)
    (r : Run) : (runInstructions block instructions budget r).core.cache = r.core.cache := by
  induction instructions generalizing budget r with
  | nil => rw [runInstructions]
  | cons i rest ih =>
    cases budget with
    | zero => rfl
    | succ budget =>
      rw [runInstructions]
      split
      · rfl
      · dsimp only
        split
        · split
          · rfl
          · rw [ih]
            rfl
        · rfl

theorem cache_runBlock (r : Run) (block : Block) (budget : Nat) :
    (runBlock r block budget).core.cache = r.core.cache :=
  cache_runInstructions block block.instructions budget r

theorem cache_blockAt (r : Run) : (blockAt r).2.core.cache = r.core.cache := by
  rw [blockAt]
  split
  · rfl
  · rfl

/-- Blocks do not remember in the decode cache, so only single instructions matter. -/
theorem decoded_advance {r : Run} (hr : r.core.Decoded) (budget : Nat) :
    (advance r budget).core.Decoded := by
  have hcache : (blockAt r).2.core.Decoded := by
    rw [Decoded, cache_blockAt]
    exact hr
  have hsingle {r : Run} (hr : r.core.Decoded) :
      ({ r with core := (r.core.stepOne r.thread r.memory).2 }.extend
        (r.core.stepOne r.thread r.memory).1).core.Decoded :=
    decoded_stepOne hr r.thread r.memory
  rw [advance]
  dsimp only
  split
  · rename_i hblock
    rw [hblock] at hcache
    exact hsingle hcache
  · rename_i block r' hblock
    rw [hblock] at hcache
    have hrun : (runBlock r' block budget).core.Decoded := by
      rw [Decoded, cache_runBlock]
      exact hcache
    split
    · exact hsingle hrun
    · exact hrun

theorem decoded_runTurns {r : Run} (hr : r.core.Decoded) (budget turns : Nat) :
    (runTurns budget turns r).core.Decoded := by
  induction turns generalizing r with
  | zero => exact hr
  | succ turns ih =>
    rw [runTurns]
    split
    · exact hr
    · have hadvance := decoded_advance hr (budget - r.executed)
      dsimp only
      split
      · exact ih hadvance
      · exact hadvance

theorem runnable_eq_ok {memory : Option Memory} :
    runnable t memory = .ok m ↔ t.halted = none ∧ memory = some m := by
  unfold runnable
  cases hhalted : t.halted with
  | some reason => simp [Thread.isHalted, hhalted]
  | none =>
    cases memory with
    | none => simp [Thread.isHalted, hhalted]
    | some m' => simp [Thread.isHalted, hhalted]

/-- What is done with a thread that can be run is done to a thread that has not ended, in its
memory. -/
theorem runnable_bind_eq_ok {memory : Option Memory} {go : Memory → Run} {r : Run} :
    (do let m ← runnable t memory; return go m : Except SchedulingError Run) = .ok r ↔
      t.halted = none ∧ ∃ m, memory = some m ∧ go m = r := by
  cases hrunnable : runnable t memory with
  | error error =>
    constructor
    · intro h
      cases h
    · rintro ⟨hhalted, m, hmemory, _⟩
      rw [runnable_eq_ok.mpr ⟨hhalted, hmemory⟩] at hrunnable
      cases hrunnable
  | ok m =>
    obtain ⟨hhalted, rfl⟩ := runnable_eq_ok.mp hrunnable
    constructor
    · intro h
      exact ⟨hhalted, m, rfl, Except.ok.inj h⟩
    · rintro ⟨_, m', hmemory, h⟩
      obtain rfl := Option.some.inj hmemory
      exact congrArg Except.ok h

theorem step_eq_ok {memory : Option Memory} {r : Run} :
    c.step t memory = .ok r ↔ t.halted = none ∧ ∃ m, memory = some m ∧
      Run.extend { core := (c.stepOne t m).2, thread := t, memory := m } (c.stepOne t m).1 = r :=
  runnable_bind_eq_ok

theorem run_eq_ok {memory : Option Memory} {budget : Nat} {r : Run} :
    c.run t memory budget = .ok r ↔ t.halted = none ∧ ∃ m, memory = some m ∧
      runTurns budget budget { core := c, thread := t, memory := m } = r :=
  runnable_bind_eq_ok

/-! ### Cores in use -/

/-- A core that was set up in some way and then used in any way, by any threads in any memories. -/
inductive Reached : Core → Prop
  | start (config : CoreConfig) : Reached (ofConfig config)
  | trace {c : Core} (tracing : Bool) : Reached c → Reached { c with tracing }
  | flush {c : Core} : Reached c → Reached c.flush
  | step {c : Core} {t : Thread} {m : Option Memory} {r : Run} :
    Reached c → c.step t m = .ok r → Reached r.core
  | run {c : Core} {t : Thread} {m : Option Memory} {budget : Nat} {r : Run} :
    Reached c → c.run t m budget = .ok r → Reached r.core

theorem Reached.decoded (hc : c.Reached) : c.Decoded := by
  induction hc with
  | start config =>
    intro cache hcache
    rw [ofConfig] at hcache
    dsimp only at hcache
    split at hcache
    · cases hcache
    · rw [← Option.some.inj hcache]
      intro n e he
      cases he
  | trace tracing _ ih => exact ih
  | flush _ ih =>
    intro cache hcache
    obtain ⟨cache', hcache', rfl⟩ := Option.map_eq_some_iff.mp hcache
    intro n e he
    cases he
  | step _ h ih =>
    obtain ⟨_, m, _, rfl⟩ := step_eq_ok.mp h
    exact decoded_stepOne ih _ m
  | run _ h ih =>
    obtain ⟨_, m, _, rfl⟩ := run_eq_ok.mp h
    exact decoded_runTurns (r := ⟨_, _, m, 0, .completed, []⟩) ih _ _

/-- A step that faults or ends the thread changes nothing else: registers, the count of completed
instructions, and all of memory with its bytes, permissions and versions are what they were. A fault
joins the end of the queue if that holds fewer than 64, and the thread goes on; a thread that ends
does so because the instruction cannot be decoded, and keeps its queue. -/
theorem step_eq_of_fault (hc : c.Reached) (t : Thread) (memory : Option Memory) (r : Run)
    (h : c.step t memory = .ok r) :
    (∀ fault a, r.result = .faulted fault a →
      memory = some r.memory ∧ a = t.registers.rip ∧ r.thread.halted = none ∧
        r.thread = { t with
          pending := if t.pending.length < 64 then t.pending ++ [⟨fault, a⟩] else t.pending }) ∧
    ∀ reason, r.result = .halted reason →
      memory = some r.memory ∧ r.thread = { t with halted := some reason } ∧
        ∃ bytes error, reason = .decode t.registers.rip bytes error := by
  obtain ⟨ht, m, rfl, rfl⟩ := step_eq_ok.mp h
  have hcommits := commits_stepOne hc.decoded ht m
  constructor
  · intro fault a hresult
    obtain ⟨rfl, hmemory, hthread⟩ := hcommits.faulted fault a hresult
    rw [Thread.deliver_eq] at hthread
    refine ⟨congrArg some hmemory.symm, rfl, ?_, hthread⟩
    exact (congrArg Thread.halted hthread).trans ht
  · intro reason hresult
    obtain ⟨hmemory, hthread, hreason⟩ := hcommits.halted reason hresult
    exact ⟨congrArg some hmemory.symm, hthread, hreason⟩

/-- A page with the code `rep stosb`, a page that can be written, and behind it one that can not. -/
def guardedMemory : Memory :=
  ((World.start fun _ ↦ {}).after
    [.request 0 (.map 0x1000 0x1000 .readExecute .anonymous),
      .request 0 (.poke 0x1000 [0xf3, 0xaa]),
      .request 0 (.map 0x2000 0x1000 .readWrite .anonymous),
      .request 0 (.map 0x3000 0x1000 .readExecute .anonymous)]).memory 0

/-- A thread at that code, about to fill four bytes of which the last two cannot be written. -/
def guardedThread : Thread :=
  { tid := 1
    registers := ((RegisterFile.start 0x1000 0).set Register.rdi 0x2ffe).set Register.rcx 4 }

/-- The whole store is refused, although its first half could be made. -/
theorem step_guardedThread :
    ∃ r, (ofConfig {}).step guardedThread (some guardedMemory) = .ok r ∧
      r.result = .faulted (.memory (.denied 0x3000 .write)) 0x1000 ∧ r.memory = guardedMemory ∧
      r.thread = { guardedThread with
        pending := [⟨.memory (.denied 0x3000 .write), 0x1000⟩] } := by
  let e := (ofConfig {}).stepOne guardedThread guardedMemory
  let r : Run := Run.extend { core := e.2, thread := guardedThread, memory := guardedMemory } e.1
  have hstep : (ofConfig {}).step guardedThread (some guardedMemory) = .ok r :=
    step_eq_ok.mpr ⟨rfl, guardedMemory, rfl, rfl⟩
  have hresult : r.result = .faulted (.memory (.denied 0x3000 .write)) 0x1000 := by
    decide +kernel
  obtain ⟨hmemory, _, _, hthread⟩ :=
    (step_eq_of_fault (.start {}) guardedThread (some guardedMemory) r hstep).1 _ _ hresult
  exact ⟨r, hstep, hresult, (Option.some.inj hmemory).symm, hthread⟩

end Core

end LongMode
