import LongMode.Proofs.Machine.Fills
import LongMode.Proofs.Machine.Straight
import LongMode.Proofs.Memory.Refusals

/-!
The accesses that the memory faults of string instructions report. A load from strings and a
comparison report that they load (`reports_loadString`, `reports_compareStrings`,
`reports_scanString`). A store to strings reports that it stores, unless it is repeated so often
that the length of the range is no number of 64 bits: that is found out before the range is checked,
in the place where loads find it out too, and reported as a load of the first element
(`faults_storeString`).
-/

set_option autoImplicit false
set_option relaxedAutoImplicit false

namespace LongMode

/-- The access that a fault reports, if it was one that a page can refuse. -/
def MemoryFault.access? : MemoryFault → Option Access
  | .unmapped _ access => some access
  | .denied _ access => some access
  | .misaligned _ _ => none

/-- A range is refused the access that was attempted. -/
theorem Memory.access?_of_check_eq_error {m : Memory} {access : Access} {a : Address}
    {length : Nat} {f : MemoryFault} (h : m.check access a length = .error f) :
    f.access? = some access := by
  cases check_eq_error_iff.mp h with
  | wraps => rfl
  | absent => rfl
  | forbidden => rfl

namespace Exec

variable {α β : Type} {P Q : MemoryFault → Prop} {c : Exec α} {w : Width} {i : Instruction}

/-! ### The faults of a computation -/

/-- Whatever memory fault a computation stops at, it is one of these. -/
def Raises (P : MemoryFault → Prop) (c : Exec α) : Prop :=
  ∀ (m : Machine) (f : MemoryFault), (c.exec m).1 = .error (.fault (.memory f)) → P f

/-- Whatever memory fault a computation stops at, it is reported as this access. -/
def Reports (access : Access) (c : Exec α) : Prop :=
  Raises (fun f ↦ f.access? = some access) c

theorem Quiet.raises (h : Quiet c) : Raises P c := by
  intro m f hf
  obtain ⟨v, m', hexec, -⟩ := h m
  rw [hexec] at hf
  cases hf

theorem Raises.bind {k : α → Exec β} (hc : Raises P c) (hk : ∀ v, Raises P (k v)) :
    Raises P (c >>= k) := by
  intro m f hf
  cases hexec : c.exec m with
  | mk outcome m' =>
    cases outcome with
    | error e =>
      rw [exec_bind_of_error hexec] at hf
      cases hf
      exact hc m f (congrArg Prod.fst hexec)
    | ok v =>
      rw [exec_bind_of_ok hexec] at hf
      exact hk v m' f hf

theorem Quiet.raises_bind {k : α → Exec β} (hc : Quiet c) (hk : ∀ v, Raises P (k v)) :
    Raises P (c >>= k) :=
  hc.raises.bind hk

theorem Raises.ite {p : Prop} [Decidable p] {d : Exec α} (hc : Raises P c) (hd : Raises P d) :
    Raises P (if p then c else d) := by
  split
  · exact hc
  · exact hd

theorem Raises.mono (h : Raises P c) (hle : ∀ f, P f → Q f) : Raises Q c :=
  fun m f hf ↦ hle f (h m f hf)

theorem raises_requireWideAddress (i : Instruction) : Raises P (requireWideAddress i) := by
  intro m f hf
  rw [requireWideAddress] at hf
  split at hf
  · cases hf
  · cases hf

/-! ### Accesses -/

theorem reports_check (access : Access) (a : Address) (length : Nat) :
    Reports access (check access a length) := by
  intro m f hf
  cases hcheck : m.memory.check access a length with
  | error e =>
    rw [exec_check_of_error hcheck] at hf
    cases hf
    exact Memory.access?_of_check_eq_error hcheck
  | ok =>
    rw [exec_check hcheck] at hf
    cases hf

theorem reports_load (a : Address) (w : Width) : Reports .read (load a w) := by
  intro m f hf
  cases hcheck : m.memory.check .read a w.bytes with
  | error e =>
    rw [exec_load_of_error hcheck] at hf
    cases hf
    exact Memory.access?_of_check_eq_error hcheck
  | ok =>
    rw [exec_load hcheck] at hf
    cases hf

theorem reports_storeBytes (a : Address) (bytes : List UInt8) :
    Reports .write (storeBytes a bytes) := by
  intro m f hf
  cases hcheck : m.memory.check .write a bytes.length with
  | error e =>
    rw [storeBytes, exec_bind_of_ok (exec_memory m), Memory.write, hcheck] at hf
    cases hf
    exact Memory.access?_of_check_eq_error hcheck
  | ok =>
    rw [exec_storeBytes hcheck] at hf
    cases hf

theorem reports_store (a : Address) (w : Width) (value : BitVec w.bits) :
    Reports .write (store a w value) :=
  reports_storeBytes a _

/-- A range whose length is no number of 64 bits is reported as a load, whatever it is for. -/
theorem raises_span (first : Address) (count : Nat) (w : Width) :
    Raises (fun f ↦ addressLimit ≤ count * w.bytes ∧ f = .unmapped first .read)
      (span first count w) := by
  intro m f hf
  by_cases hlong : addressLimit ≤ count * w.bytes
  · rw [exec_span_of_le first m hlong] at hf
    cases hf
    exact ⟨hlong, rfl⟩
  · rw [exec_span first m (Nat.lt_of_not_le hlong)] at hf
    cases hf

/-! ### Loads and comparisons -/

theorem reports_loadString (w : Width) (i : Instruction) : Reports .read (loadString w i) := by
  have hspan (first : Address) (count : Nat) : Reports .read (span first count w) :=
    (raises_span first count w).mono fun f hf ↦ by rw [hf.2]; rfl
  refine (raises_requireWideAddress i).bind fun _ ↦ (quiet_sourceAddress i).raises_bind fun src ↦
    .ite (quiet_counter.raises_bind fun count ↦ ?_) (.bind (Quiet.pure 1).raises fun count ↦ ?_)
  all_goals
    exact .ite ((hspan src count).bind fun _ ↦ (reports_check .read _ _).bind fun _ ↦
      quiet_backwards.raises_bind fun _ ↦ (reports_load _ w).bind fun _ ↦
        (quiet_setGeneralLow _ w _).raises_bind fun _ ↦
          (quiet_advance _ count w).raises_bind fun _ ↦
            .ite (quiet_setGeneral _ _).raises (Quiet.pure ()).raises) (Quiet.pure ()).raises

theorem raises_compareRepeated (repetition : Repeat) {step : Exec Unit} (hstep : Raises P step)
    (count : Nat) : Raises P (compareRepeated repetition step count) := by
  induction count with
  | zero => exact (Quiet.pure _).raises
  | succ count ih =>
    exact hstep.bind fun _ ↦ (quiet_setGeneral _ _).raises_bind fun _ ↦
      quiet_flags.raises_bind fun _ ↦ .ite (Quiet.pure _).raises ih

theorem raises_compareAll (i : Instruction) {step : Exec Unit} (hstep : Raises P step) :
    Raises P (compareAll i step) := by
  rw [compareAll]
  split
  · exact hstep
  · exact quiet_counter.raises_bind fun count ↦ raises_compareRepeated _ hstep count

theorem reports_compareStrings (w : Width) (i : Instruction) :
    Reports .read (compareStrings w i) := by
  refine (raises_requireWideAddress i).bind fun _ ↦ raises_compareAll i ?_
  refine (quiet_sourceAddress i).raises_bind fun _ ↦ (reports_load _ w).bind fun _ ↦
    (quiet_general _).raises_bind fun _ ↦ (reports_load _ w).bind fun _ ↦ ?_
  exact ((quiet_modifyFlags _).bind fun _ ↦ (quiet_advance _ 1 w).bind fun _ ↦
    quiet_advance _ 1 w).raises

theorem reports_scanString (w : Width) (i : Instruction) : Reports .read (scanString w i) := by
  refine (raises_requireWideAddress i).bind fun _ ↦ (quiet_generalLow _ w).raises_bind fun _ ↦
    raises_compareAll i ?_
  refine (quiet_general _).raises_bind fun _ ↦ (reports_load _ w).bind fun _ ↦ ?_
  exact ((quiet_modifyFlags _).bind fun _ ↦ quiet_advance _ 1 w).raises

/-! ### Stores -/

theorem reports_fillChunks (element : List UInt8) (count : Nat) (dst : Address) (length : Nat) :
    Reports .write (fillChunks element count dst length) := by
  induction count generalizing dst length with
  | zero => exact (Quiet.pure _).raises
  | succ count ih => exact (reports_storeBytes _ _).bind fun _ ↦ ih _ _

/-- A repeat prefix asks for elements of which the bytes cannot be counted in 64 bits. -/
def Overlong (m : Machine) (i : Instruction) (w : Width) : Prop :=
  i.prefixes.repetition.isSome = true ∧ addressLimit ≤ remaining m * w.bytes

/-- A store that cannot count its bytes stops before it checks its range. -/
theorem exec_storeString_of_overlong {m : Machine} (hwide : i.narrowAddress = false)
    (h : Overlong m i w) :
    (storeString w i).exec m =
      (.error (.fault (.memory (.unmapped (m.registers.get Register.rdi) .read))), m) := by
  obtain ⟨hrepeated, hlong⟩ := h
  have hpos : remaining m ≠ 0 := by
    intro hzero
    rw [hzero, Nat.zero_mul] at hlong
    exact absurd hlong (by decide)
  rw [storeString, exec_bind_of_ok (exec_requireWideAddress hwide m),
    exec_bind_of_ok (exec_generalLow _ w m), exec_bind_of_ok (exec_general _ m),
    Option.isNone_eq_false_iff.mpr hrepeated, if_neg Bool.false_ne_true,
    exec_bind_of_ok (exec_counter m), if_pos hpos]
  exact exec_bind_of_error (exec_span_of_le _ m hlong) _

/-- A store that can count its bytes reports that it stores. -/
theorem access?_of_storeString {m : Machine} (hwide : i.narrowAddress = false)
    (h : ¬Overlong m i w) {f : MemoryFault}
    (hf : ((storeString w i).exec m).1 = .error (.fault (.memory f))) :
    f.access? = some .write := by
  rw [storeString, exec_bind_of_ok (exec_requireWideAddress hwide m),
    exec_bind_of_ok (exec_generalLow _ w m), exec_bind_of_ok (exec_general _ m)] at hf
  cases hrepetition : i.prefixes.repetition with
  | none =>
    rw [hrepetition] at hf
    exact ((reports_store _ w _).bind fun _ ↦ (quiet_advance _ 1 w).raises) m f hf
  | some repetition =>
    have hshort : ¬addressLimit ≤ remaining m * w.bytes := fun hlong ↦
      h ⟨by rw [hrepetition]; rfl, hlong⟩
    have hspan : Reports .write (span (m.registers.get Register.rdi) (remaining m) w) :=
      (raises_span _ _ w).mono fun f hf ↦ absurd hf.1 hshort
    rw [hrepetition, Option.isNone_some, if_neg Bool.false_ne_true,
      exec_bind_of_ok (exec_counter m)] at hf
    exact Raises.ite (hspan.bind fun _ ↦ (reports_check .write _ _).bind fun _ ↦
      (reports_fillChunks _ _ _ _).bind fun _ ↦ (quiet_advance _ _ w).raises_bind fun _ ↦
        (quiet_setGeneral _ _).raises) (Quiet.pure ()).raises m f hf

/-- What a store to strings stops at. -/
theorem faults_storeString {m : Machine} {f : MemoryFault}
    (h : ((storeString w i).exec m).1 = .error (.fault (.memory f))) :
    (Overlong m i w → f = .unmapped (m.registers.get Register.rdi) .read) ∧
      (¬Overlong m i w → f.access? = some .write) := by
  cases hnarrow : i.narrowAddress with
  | true =>
    have hrefused : (requireWideAddress i).exec m =
        (.error (.fault (.decode .unsupported)), m) := by
      rw [requireWideAddress, hnarrow]
      rfl
    rw [storeString, exec_bind_of_error hrefused] at h
    cases h
  | false =>
    refine ⟨fun hlong ↦ ?_, fun hshort ↦ access?_of_storeString hnarrow hshort h⟩
    rw [exec_storeString_of_overlong hnarrow hlong] at h
    cases h
    rfl

/-! ### Instructions -/

theorem straight?_string {op : StringOp} (h : i.mnemonic = .string op w) :
    i.mnemonic.straight? i = some (string op w i) := by
  rw [h]
  rfl

/-- A string instruction that stops at a memory fault has no lock prefix, and its computation stops
there. -/
theorem exec_of_string_fault {op : StringOp} {m : Machine} {f : MemoryFault}
    (hstring : i.mnemonic = .string op w) (h : (m.execute i).1 = .error (.fault (.memory f))) :
    ((string op w i).exec m).1 = .error (.fault (.memory f)) := by
  cases hlock : i.prefixes.lock with
  | true =>
    have heffect : i.effect = .error .invalidOpcode := by
      rw [Instruction.effect, if_pos hlock, hstring]
      rfl
    rw [Machine.execute, heffect] at h
    cases h
  | false =>
    rw [Machine.execute_of_straight hlock (straight?_string hstring)] at h
    exact eq_error_of_map h

/-- A store that cannot count its bytes stops at an unmapped first element, with memory as it
was. -/
theorem stopsWith_of_overlong {m : Machine} (hstring : i.mnemonic = .string .stos w)
    (hlock : i.prefixes.lock = false) (hwide : i.narrowAddress = false) (h : Overlong m i w) :
    m.StopsWith i (.memory (.unmapped (m.registers.get Register.rdi) .read)) :=
  Machine.stopsWith_of_exec hlock (straight?_string hstring)
    (exec_storeString_of_overlong hwide h) rfl

/-- The access that a memory fault of a string instruction other than a move reports. A load or a
comparison reports that it loads. A store reports that it stores, but for one that is repeated so
often that its bytes cannot be counted in 64 bits, which is reported as a load of an unmapped first
element whether it is mapped or not. -/
theorem access_of_string_fault {op : StringOp} (hstring : i.mnemonic = .string op w)
    (hmoves : op ≠ .movs) {m : Machine} {f : MemoryFault}
    (hfault : (m.execute i).1 = .error (.fault (.memory f))) :
    (op ≠ .stos → f.access? = some .read) ∧
      (op = .stos → ¬Overlong m i w → f.access? = some .write) ∧
      (op = .stos → Overlong m i w → f = .unmapped (m.registers.get Register.rdi) .read) := by
  have hexec := exec_of_string_fault hstring hfault
  cases op with
  | movs => exact absurd rfl hmoves
  | stos =>
    obtain ⟨hover, hnot⟩ := faults_storeString hexec
    exact ⟨fun hne ↦ absurd rfl hne, fun _ ↦ hnot, fun _ ↦ hover⟩
  | lods => exact ⟨fun _ ↦ reports_loadString w i m f hexec, by simp, by simp⟩
  | cmps => exact ⟨fun _ ↦ reports_compareStrings w i m f hexec, by simp, by simp⟩
  | scas => exact ⟨fun _ ↦ reports_scanString w i m f hexec, by simp, by simp⟩

/-- Two words behind the mapped pages. -/
theorem access_fillingMachine :
    repStosd.mnemonic = .string .stos .dword ∧ StringOp.stos ≠ .movs ∧
      ((fillingMachine 0x5000 2).execute repStosd).1 =
        .error (.fault (.memory (.unmapped 0x4ffc .write))) ∧
      (MemoryFault.unmapped 0x4ffc .write).access? = some .write := by
  have hstring : repStosd.mnemonic = .string .stos .dword := rfl
  have hmoves : StringOp.stos ≠ .movs := by decide
  have hfault : ((fillingMachine 0x5000 2).execute repStosd).1 =
      .error (.fault (.memory (.unmapped 0x4ffc .write))) := by
    have houtcome : ((fillingMachine 0x5000 2).execute repStosd).1.map (fun _ ↦ ()) =
        .error (.fault (.memory (.unmapped 0x4ffc .write))) := by decide +kernel
    exact eq_error_of_map houtcome
  have hshort : ¬Overlong (fillingMachine 0x5000 2) repStosd .dword := by
    rintro ⟨-, hlong⟩
    exact absurd hlong (by decide +kernel)
  exact ⟨hstring, hmoves, hfault, (access_of_string_fault hstring hmoves hfault).2.1 rfl hshort⟩

/-- A store of 2^62 words does not report that it stores. -/
theorem not_write_of_stos_fault :
    ¬∀ (m : Machine) (i : Instruction) (w : Width) (f : MemoryFault),
      i.mnemonic = .string .stos w → (m.execute i).1 = .error (.fault (.memory f)) →
        f.access? = some .write := by
  intro h
  have hoverlong : Overlong (fillingMachine 0x3002 0x4000000000000000) repStosd .dword :=
    ⟨rfl, by decide +kernel⟩
  have hstops := stopsWith_of_overlong rfl rfl rfl hoverlong
  cases h _ repStosd .dword _ rfl (congrArg Prod.fst hstops)

end Exec

end LongMode
