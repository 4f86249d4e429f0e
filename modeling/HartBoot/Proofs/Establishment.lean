import HartBoot.Proofs.Detection
import HartBoot.Proofs.Initialization
import HartBoot.Proofs.Presets
import HartBoot.Proofs.Restoration

/-! # The baseline that initialization establishes

The baseline is a table of presets, which depends on the extensions that a hart advertises, on the
record of its features, on its platform and on whether its floating-point unit could be switched on.
Initialization writes this table and nothing else. Whether it ends depends on the registers of the
table alone: each of them has to take its preset. On a hart that takes writes to its status, its
interrupts and the registers that come with its extensions, it always does, because the other
registers of the table are those that detection has found to take writes.
-/

namespace HartBoot

/-- Whether the register advertises a floating-point unit. -/
def Misa.hasFloat (misa : Word) : Bool := has misa 'F' || has misa 'D'

namespace Baseline

/-- The first protection entry is cleared, and its address keeps what it can of the pattern. -/
def protection (file : CsrFile) : List Preset := [
  { csr := .pmpcfg0, written := 0, applies := file.accepts .pmpcfg0 },
  { csr := .pmpaddr0, written := HartM.addressPattern
    applies := file.accepts .pmpcfg0 && file.accepts .pmpaddr0 }]

/-- The machine status: the floating-point and vector units are initial if there are any. -/
def statusWord (misa : Word) : Word :=
  (if Misa.hasFloat misa then Status.fs.mask else 0)
    ||| (if Misa.has misa 'V' then Status.vs.mask else 0)

/-- Status, counters, interrupts and paging. -/
def status (misa : Word) (record : FeatureRecord) : List Preset := [
  { csr := .mstatus, written := statusWord misa },
  { csr := .scounteren, written := HartM.openCounters
    applies := Misa.has misa 'S' && record.has FeatureFlags.scounteren },
  { csr := .mcounteren, written := Word.ones, applies := record.has FeatureFlags.mcounteren },
  { csr := .mcountinhibit, written := HartM.stoppedCounters
    applies := record.has FeatureFlags.mcountinhibit },
  { csr := .mie, written := 0 },
  { csr := .satp, written := 0, applies := Misa.has misa 'S' }]

/-- Floating-point status, where there is a unit that could be switched on. -/
def float (misa : Word) (file : CsrFile) (completed : Bool) : Preset where
  csr := .fcsr
  written := 0
  applies := completed && Misa.hasFloat misa && (file[Csr.fcsr]?).isSome

/-- Traps are delegated on a hart with supervisor mode. -/
def delegation (misa : Word) (record : FeatureRecord) (platform : Platform) (completed : Bool) :
    List Preset :=
  let policy := Delegation.policy record (Misa.has misa 'H') platform.delegatesPageFaults
  [{ csr := .mideleg, written := policy.interrupts.bits
     applies := completed && Misa.has misa 'S' },
    { csr := .medeleg, written := policy.exceptions.bits
      applies := completed && Misa.has misa 'S' }]

/-- The baseline after detection. It is completed unless the floating-point unit stays off. -/
def restored (misa : Word) (record : FeatureRecord) (platform : Platform) (file : CsrFile)
    (completed : Bool) : List Preset :=
  status misa record ++ float misa file completed :: delegation misa record platform completed

/-- The whole baseline. -/
def presets (misa : Word) (record : FeatureRecord) (platform : Platform) (file : CsrFile)
    (completed : Bool) : List Preset :=
  protection file ++ restored misa record platform file completed

/-- The registers that are reset before the floating-point unit is looked at. -/
theorem csr_status (misa : Word) (record : FeatureRecord) : (status misa record).map Preset.csr =
    [.mstatus, .scounteren, .mcounteren, .mcountinhibit, .mie, .satp] := rfl

/-- The registers of the baseline. -/
theorem csr_presets (misa : Word) (record : FeatureRecord) (platform : Platform) (file : CsrFile)
    (completed : Bool) : (presets misa record platform file completed).map Preset.csr =
      [.pmpcfg0, .pmpaddr0, .mstatus, .scounteren, .mcounteren, .mcountinhibit, .mie, .satp, .fcsr,
        .mideleg, .medeleg] := rfl

theorem nodup_presets (misa : Word) (record : FeatureRecord) (platform : Platform)
    (file : CsrFile) (completed : Bool) :
    ((presets misa record platform file completed).map Preset.csr).Nodup := by
  rw [csr_presets]
  decide

/-- The floating-point unit is on after its status is set, or there is none. -/
def completes (misa : Word) (file : CsrFile) : Bool :=
  !(Misa.hasFloat misa &&
    Status.fs.extract ((file.retained? .mstatus (statusWord misa)).getD 0) == 0)

/-- Whether the baseline is completed can be read off the status that it leaves behind. -/
theorem completes_of_accepts {misa : Word} {file : CsrFile} {register : Register}
    (found : file[Csr.mstatus]? = some register) (unlocked : register.readOnly = false) :
    completes misa file = !(Misa.hasFloat misa &&
      Status.fs.extract (register.settle (statusWord misa)) == 0) := by
  have retained : file.retained? .mstatus (statusWord misa) =
      some (register.settle (statusWord misa)) := by
    simp only [CsrFile.retained?, found, Option.bind_some, unlocked, Bool.false_eq_true, if_false]
  rw [completes, retained, Option.getD_some]

/-- The answer of an initialization that completes the baseline or does not. -/
def answer (completed : Bool) : Except HartError Unit :=
  if completed then .ok () else .error .invalidState

theorem answer_cases (completed : Bool) :
    answer completed = .ok () ∨ answer completed = .error .invalidState := by
  cases completed with
  | false => exact .inr rfl
  | true => exact .inl rfl

theorem isOk_answer (completed : Bool) : (answer completed).isOk = completed := by
  cases completed <;> rfl

section

variable {touched : Csr → Prop} {before after : CsrFile} {misa : Word} {record : FeatureRecord}
  {platform : Platform} {completed : Bool}

theorem completes_evolve (evolves : CsrFile.Evolves touched before after) :
    completes misa after = completes misa before := by
  rw [completes, completes, evolves.retained?_eq]

theorem float_evolve (evolves : CsrFile.Evolves touched before after) :
    float misa after completed = float misa before completed := by
  rw [float, float, evolves.isSome_eq]

theorem restored_evolve (evolves : CsrFile.Evolves touched before after) :
    restored misa record platform after completed =
      restored misa record platform before completed := by
  rw [restored, restored, float_evolve evolves]

/-- The baseline depends on nothing that writes can change. -/
theorem presets_evolve (evolves : CsrFile.Evolves touched before after) :
    presets misa record platform after completed =
      presets misa record platform before completed := by
  rw [presets, presets, restored_evolve evolves, protection, protection, evolves.accepts_eq,
    evolves.accepts_eq]

end

theorem takes_protection (file : CsrFile) : file.Takes (protection file) := by
  rw [CsrFile.takes_iff]
  intro preset member applies
  simp only [protection, List.mem_cons, List.not_mem_nil, or_false] at member
  rcases member with rfl | rfl
  · exact applies
  · exact (Bool.and_eq_true_iff.mp applies).2

/-- Probing leaves the presets of the first protection entry behind. -/
theorem presetAll_protection (file : CsrFile) : file.presetAll (protection file) = file.probed := by
  have evolves : CsrFile.Evolves (fun _ => True) file (file.write .pmpcfg0 0) :=
    .write file trivial 0
  simp only [CsrFile.presetAll, protection, List.foldl_cons, List.foldl_nil, CsrFile.preset,
    CsrFile.probed]
  cases file.accepts .pmpcfg0 with
  | false => rfl
  | true =>
    simp only [if_true, Bool.true_and]
    split
    · rfl
    next refused =>
      have locked : (file.write .pmpcfg0 0).accepts .pmpaddr0 = false :=
        (evolves.accepts_eq _).trans (Bool.not_eq_true _ ▸ refused)
      exact (CsrFile.write_of_refused locked _).symm

end Baseline

namespace HartM

variable {file : CsrFile} {misa : Word} {hart : Hart}

theorem hasExtension_eq (found : hart.csrs.value? .misa = some misa) (extension : Char) :
    hasExtension extension hart = .ok (Misa.has misa extension) hart := by
  have present : hart.value? .misa = some misa := found
  have ran : read .misa hart = .ok misa hart := by simp only [read, present]
  exact bind_ok ran _

theorem hasFloat_eq (found : hart.csrs.value? .misa = some misa) :
    hasFloat hart = .ok (Misa.hasFloat misa) hart := by
  rw [hasFloat, bind_ok (hasExtension_eq found 'F'), Misa.hasFloat]
  cases Misa.has misa 'F' with
  | true => rfl
  | false => exact hasExtension_eq found 'D'

namespace Runs

variable {α : Type} {needs : Prop} {outcome : α} {after : CsrFile} {clears : Bool}

/-- What an extension decides is known from the register that advertises it. -/
theorem extension_known {next : Bool → HartM α} (found : file.value? .misa = some misa)
    {extension : Char}
    (follows : Runs (next (Misa.has misa extension)) file needs outcome after clears) :
    Runs (hasExtension extension >>= next) file needs outcome after clears := by
  refine known ?_ follows
  rintro hart rfl
  exact hasExtension_eq found extension

theorem float_known {next : Bool → HartM α} (found : file.value? .misa = some misa)
    (follows : Runs (next (Misa.hasFloat misa)) file needs outcome after clears) :
    Runs (hasFloat >>= next) file needs outcome after clears := by
  refine known ?_ follows
  rintro hart rfl
  exact hasFloat_eq found

end Runs

theorem runs_resetStatus (found : file.value? .misa = some misa) (record : FeatureRecord) :
    Runs (resetStatus record) file (file.Takes (Baseline.status misa record)) ()
      (file.presetAll (Baseline.status misa record)) false := by
  have advertised : (file.preset { csr := .mstatus, written := Baseline.statusWord misa }).value?
      .misa = some misa := by
    rw [CsrFile.value?_preset_of_ne (show Csr.misa ≠ .mstatus by decide)]
    exact found
  refine .float_known found (.extension_known found ?_)
  refine .presets_cons rfl (.extension_known advertised ?_)
  exact .presets_cons_if (.presets_cons_if (.presets_cons_if (.presets_cons rfl .presets_last)))

/-- The floating-point unit is cleared where it is on. -/
theorem runs_resetFloat (found : file.value? .misa = some misa) {word : Word}
    (reset : file.value? .mstatus = some word) {completed : Bool}
    (same : completed = !(Misa.hasFloat misa && Status.fs.extract word == 0)) :
    Runs resetFloat file (file.Takes [Baseline.float misa file completed])
      (Baseline.answer completed) (file.presetAll [Baseline.float misa file completed])
      (completed && Misa.hasFloat misa) := by
  subst same
  refine .float_known found ?_
  cases equipped : Misa.hasFloat misa with
  | false =>
    rw [if_neg Bool.false_ne_true]
    exact .presets_skip (by simp [Baseline.float, equipped]) (.presets_nil _ file)
  | true =>
    rw [if_pos rfl]
    have present (hart : Hart) (registers : hart.csrs = file) :
        read .mstatus hart = .ok word hart := by
      have held : hart.value? .mstatus = some word := by
        subst registers
        exact reset
      simp only [read, held]
    refine .known present ?_
    by_cases off : Status.fs.extract word = 0
    · rw [if_pos off]
      simp only [off, Bool.true_and, beq_self_eq_true, Bool.not_true, Bool.false_and]
      exact .presets_skip rfl (.presets_nil _ file)
    · rw [if_neg off]
      simp only [Bool.true_and, beq_eq_false_iff_ne.mpr off, Bool.not_false]
      have applies : (Baseline.float misa file true).applies = (file[Csr.fcsr]?).isSome := by
        rw [Baseline.float, equipped, Bool.true_and, Bool.true_and]
      exact (Runs.clearFloat rfl rfl applies).answering (Except.ok ())

theorem runs_delegateTraps (found : file.value? .misa = some misa) (record : FeatureRecord)
    (platform : Platform) :
    Runs (delegateTraps record platform) file
      (file.Takes (Baseline.delegation misa record platform true)) ()
      (file.presetAll (Baseline.delegation misa record platform true)) false := by
  refine .extension_known found ?_
  cases supervisor : Misa.has misa 'S' with
  | false =>
    rw [if_neg Bool.false_ne_true]
    refine .presets_skip (by simp [supervisor]) (.presets_skip (by simp [supervisor]) ?_)
    exact .presets_nil () file
  | true =>
    rw [if_pos rfl]
    refine .extension_known found ?_
    exact .presets_cons (by simp [supervisor]) (.presets_end (by simp [supervisor]))

/-- Traps are delegated if the baseline is completed. -/
theorem runs_delegateTraps_if (found : file.value? .misa = some misa) (record : FeatureRecord)
    (platform : Platform) (completed : Bool) :
    Runs (match Baseline.answer completed with
      | .error error => pure (.error error)
      | .ok () => do
        delegateTraps record platform
        return .ok ()) file (file.Takes (Baseline.delegation misa record platform completed))
      (Baseline.answer completed)
      (file.presetAll (Baseline.delegation misa record platform completed)) false := by
  cases completed with
  | false => exact .presets_skip rfl (.presets_skip rfl (.presets_nil _ file))
  | true => exact (runs_delegateTraps found record platform).answering (Except.ok ())

/-- From a record of features, a hart gets to its baseline if it takes every preset, and stops
otherwise. -/
theorem runs_restore (found : file.value? .misa = some misa) (record : FeatureRecord)
    (platform : Platform) {completed : Bool} (same : completed = Baseline.completes misa file) :
    Runs (restore record platform) file
      (file.Takes (Baseline.restored misa record platform file completed))
      (Baseline.answer completed)
      (file.presetAll (Baseline.restored misa record platform file completed))
      (completed && Misa.hasFloat misa) := by
  rw [← Bool.false_or (completed && Misa.hasFloat misa),
    ← Bool.or_false (completed && Misa.hasFloat misa)]
  refine (runs_resetStatus found record).presets_append fun met => ?_
  have distinct : ((Baseline.status misa record).map Preset.csr).Nodup := by
    rw [Baseline.csr_status]
    decide
  -- What the status keeps of its preset decides whether the floating-point unit is on.
  obtain ⟨register, held, unlocked, stored⟩ := met.exists_store distinct List.mem_cons_self rfl
  have advertised : (file.presetAll (Baseline.status misa record)).value? .misa = some misa := by
    rw [CsrFile.value?_presetAll_of_unnamed (by rw [Baseline.csr_status]; decide)]
    exact found
  have cleared := runs_resetFloat advertised (CsrFile.value?_of_some stored)
    (same.trans (Baseline.completes_of_accepts held unlocked))
  rw [Baseline.float_evolve (file.evolves_presetAll (Baseline.status misa record))] at cleared
  have kept : ((file.presetAll (Baseline.status misa record)).presetAll
      [Baseline.float misa file completed]).value? .misa = some misa := by
    rw [CsrFile.value?_presetAll_of_unnamed (show Csr.misa ∉ [Csr.fcsr] by decide)]
    exact advertised
  exact cleared.presets_append fun _ => runs_delegateTraps_if kept record platform completed

end HartM

namespace BootM

variable {machine : Machine} {misa : Word}

/-- With a place for the feature record, initialization writes the whole baseline if the hart takes
it, and stops otherwise. -/
theorem init_runs (platform : Platform) {cold : Bool} {shared : Shared}
    {offset : Offset FeatureRecord}
    (given : featureOffset cold machine = .ok (.ok offset) { machine with shared })
    (place : shared.featureOffset = some offset) (steady : machine.hart.outages = [])
    (fits : machine.hart.csrs.pattern = 0 ∨ Word.trailingZeros machine.hart.csrs.pattern < 62)
    (numbered : (machine.hart.csrs.value? .mhartid).isSome = true)
    (found : machine.hart.csrs.value? .misa = some misa) {completed : Bool}
    (same : completed = Baseline.completes misa machine.hart.csrs) {presets : List Preset}
    (table : presets = Baseline.presets misa machine.hart.csrs.survey platform machine.hart.csrs
      completed) :
    (machine.hart.csrs.Takes presets ∧ ∃ final,
      init platform cold machine = .ok (Baseline.answer completed) final ∧
      final.hart.csrs = machine.hart.csrs.presetAll presets ∧ final.hart.outages = [] ∧
      final.hart.floatCleared =
        (machine.hart.floatCleared || (completed && Misa.hasFloat misa)) ∧
      final.shared.featureOffset = some offset ∧
      final.area.get offset = machine.hart.csrs.survey) ∨
    (¬machine.hart.csrs.Takes presets ∧
      ∃ stop final, init platform cold machine = .error stop final) := by
  obtain ⟨id, numbered⟩ := Option.isSome_iff_exists.mp numbered
  obtain ⟨middle, restores, registers, quiet, located, stored, detected⟩ :=
    init_of_place platform given place steady fits numbered
  have probed := machine.hart.csrs.evolves_probed
  have advertised : middle.hart.csrs.value? .misa = some misa := by
    rw [registers, CsrFile.value?, probed.frame _ (by decide)]
    exact found
  have cleared : middle.hart.floatCleared = machine.hart.floatCleared := by
    have advanced := (HartM.cautious_detect machine.hart).1.floatCleared
    rwa [HartM.finalHart, detected] at advanced
  have takes : middle.hart.csrs.Takes (Baseline.restored misa machine.hart.csrs.survey platform
      machine.hart.csrs completed) ↔ machine.hart.csrs.Takes presets := by
    rw [registers, probed.takes_iff, table, Baseline.presets, CsrFile.takes_append]
    exact (and_iff_right (Baseline.takes_protection _)).symm
  have left : machine.hart.csrs.presetAll presets = middle.hart.csrs.presetAll
      (Baseline.restored misa machine.hart.csrs.survey platform machine.hart.csrs completed) := by
    rw [table, Baseline.presets, CsrFile.presetAll_append, Baseline.presetAll_protection, registers]
  have runs := HartM.runs_restore advertised machine.hart.csrs.survey platform
    (same.trans (registers ▸ (Baseline.completes_evolve probed).symm)) middle.hart rfl
  rw [registers, Baseline.restored_evolve probed, ← registers, takes] at runs
  rw [restores, left]
  rcases runs with ⟨met, hart, ran, after, still, floats⟩ | ⟨unmet, stop, final, stopped⟩
  · refine .inl ⟨met, _, onHart_eq_ok_iff.mpr ⟨hart, ran, rfl⟩, after, still.trans quiet, ?_,
      located, stored⟩
    rw [← cleared]
    exact floats
  · exact .inr ⟨unmet, stop, _, onHart_eq_error_iff.mpr ⟨final, stopped, rfl⟩⟩

/-- A place for the feature record is found if there is one, or if a cold boot can reserve one. -/
theorem featureOffset_of_place {cold : Bool}
    (place : machine.shared.featureOffset.isSome = true ∨
      cold = true ∧ machine.shared.reserveFeatures.isSome = true) :
    ∃ offset shared, featureOffset cold machine = .ok (.ok offset) { machine with shared } ∧
      shared.featureOffset = some offset := by
  rcases featureOffset_cases cold machine with ⟨error, refused⟩ | found
  · obtain ⟨missing, full, -⟩ := of_featureOffset_error refused
    rcases place with reserved | ⟨boot, reservable⟩
    · rw [missing] at reserved
      cases reserved
    · rw [full boot] at reservable
      cases reservable
  · exact found

end BootM

namespace Baseline

/-- A hart has the registers that its baseline needs, as far as detection does not look for them. -/
structure Bootable (misa : Word) (file : CsrFile) : Prop where
  advertised : file.value? .misa = some misa
  numbered : (file.value? .mhartid).isSome = true
  status : file.accepts .mstatus = true
  interrupts : file.accepts .mie = true
  paging : Misa.has misa 'S' = true → file.accepts .satp = true
  delegation : Misa.has misa 'S' = true →
    file.accepts .mideleg = true ∧ file.accepts .medeleg = true
  float : Misa.hasFloat misa = true → (file[Csr.fcsr]?).isSome = true → file.accepts .fcsr = true

/-- A bootable hart takes its baseline: the registers that only come with features are those that
detection has found to take writes. -/
theorem Bootable.takes {misa : Word} {file : CsrFile} (bootable : Bootable misa file)
    (fits : file.pattern = 0 ∨ Word.trailingZeros file.pattern < 62) (platform : Platform)
    (completed : Bool) : file.Takes (presets misa file.survey platform file completed) := by
  have described := file.describes_survey fits
  rw [presets, CsrFile.takes_append]
  refine ⟨takes_protection file, ?_⟩
  rw [CsrFile.takes_iff]
  intro preset member applies
  simp only [restored, Baseline.status, Baseline.delegation, List.mem_append, List.mem_cons,
    List.not_mem_nil, or_false] at member
  rcases member with (rfl | rfl | rfl | rfl | rfl | rfl) | rfl | rfl | rfl
  · exact bootable.status
  · exact described.scounteren ▸ (Bool.and_eq_true_iff.mp applies).2
  · exact described.mcounteren ▸ applies
  · exact described.mcountinhibit ▸ applies
  · exact bootable.interrupts
  · exact bootable.paging applies
  · obtain ⟨equipped, implemented⟩ := Bool.and_eq_true_iff.mp applies
    exact bootable.float (Bool.and_eq_true_iff.mp equipped).2 implemented
  · exact (bootable.delegation (Bool.and_eq_true_iff.mp applies).2).1
  · exact (bootable.delegation (Bool.and_eq_true_iff.mp applies).2).2

end Baseline

namespace BootM

end BootM

/-- A machine whose hart has a floating-point unit and supervisor mode, left in use by an earlier
boot stage. -/
def Machine.supervised : Machine :=
  let advertised := Hart.numbered.implementReadOnly .misa 0x800000000014112d
  let machineMode := ((advertised.implement .mstatus 0x1888 Word.ones).implement .mie 0x80
    Word.ones).implement .fcsr 0x1f 0xff
  let supervisor := (machineMode.implement .satp 0x8000000000080000 Word.ones).implement .mideleg 0
    0x222
  ⟨supervisor.implement .medeleg 0 0xb3ff, .blank, {}⟩

theorem Baseline.bootable_supervised :
    Bootable 0x800000000014112d Machine.supervised.hart.csrs := by
  constructor <;> decide +kernel

namespace BootM

end BootM

end HartBoot
