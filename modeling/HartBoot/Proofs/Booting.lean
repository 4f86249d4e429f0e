import HartBoot.Pmp.Configure
import HartBoot.Proofs.Plan
import HartBoot.Proofs.Programming

/-! # Actions of a booting hart as transitions of the register file

Most of what a booting hart does leaves its scratch area and the place of the feature record alone:
it works on registers, and it reports. Reporting looks registers up at most. Actions of this kind
are told by the registers that they start from and the registers that they leave behind, as those
of the hart itself are, or by the presets that they write in between. Protecting the memory of a
domain is one of them: it writes the plan for the regions of the domain, and nothing else. A machine
whose hart has all entries is ready for that, and accepted writes keep it so.
-/

namespace HartBoot

namespace BootM

variable {α β : Type} {before middle after file : CsrFile}

/-- From every machine with the given registers, an action ends with the given result and leaves
the given registers behind, and the scratch memory as it was. -/
def Gives (action : BootM α) (before : CsrFile) (result : α) (after : CsrFile) : Prop :=
  ∀ machine : Machine, machine.hart.csrs = before →
    ∃ final, action machine = .ok result final ∧ final.hart.csrs = after ∧
      final.hart.outages = machine.hart.outages ∧ final.area = machine.area ∧
      final.shared.featureOffset = machine.shared.featureOffset

theorem get_eq (machine : Machine) : (get : BootM Machine) machine = .ok machine machine := rfl

theorem modify_eq (change : Machine → Machine) (machine : Machine) :
    (modify change : BootM PUnit) machine = .ok ⟨⟩ (change machine) := rfl

/-- What a hart does by itself ends on its machine as it ends on the hart. -/
theorem onHart_eq_ok_iff {action : HartM α} {machine final : Machine} {result : α} :
    onHart action machine = .ok result final ↔
      ∃ hart, action machine.hart = .ok result hart ∧ final = { machine with hart } := by
  obtain ⟨hart, area, shared⟩ := machine
  simp only [onHart]
  cases action hart with
  | ok answer after => simp [eq_comm]
  | error stop after => simp

theorem onHart_eq_error_iff {action : HartM α} {machine final : Machine} {stop : Stop} :
    onHart action machine = .error stop final ↔
      ∃ hart, action machine.hart = .error stop hart ∧ final = { machine with hart } := by
  obtain ⟨hart, area, shared⟩ := machine
  simp only [onHart]
  cases action hart with
  | ok answer after => simp
  | error reason after => simp [eq_comm]

theorem onHart_bind {α β : Type} (action : HartM α) (next : α → HartM β) :
    onHart (action >>= next) = onHart action >>= fun result => onHart (next result) := by
  funext ⟨hart, area, shared⟩
  simp only [onHart, Bind.bind, EStateM.bind]
  cases action hart <;> rfl

/-- A line of diagnostics whose message is put together without a trace changes the terminal at
most. -/
theorem diagnose_ok {message : BootM String} {machine : Machine} {text : String}
    (composed : message machine = .ok text machine) (level : Level) (target : String) :
    ∃ terminal, diagnose level target message machine =
      .ok () { machine with shared := { machine.shared with terminal } } := by
  by_cases shown : machine.shared.terminal.enabled level
  · refine ⟨machine.shared.terminal.record level target text, ?_⟩
    rw [diagnose, bind_ok (get_eq machine), if_pos shown, bind_ok composed]
    exact modify_eq _ machine
  · refine ⟨machine.shared.terminal, ?_⟩
    rw [diagnose, bind_ok (get_eq machine), if_neg shown]
    rfl

namespace Gives

theorem onHart {action : HartM α} {result : α}
    (given : ∀ outages, HartM.Gives outages action before result after) :
    Gives (BootM.onHart action) before result after := by
  rintro ⟨hart, area, shared⟩ registers
  obtain ⟨final, ran, registers, same⟩ := given hart.outages hart registers rfl
  exact ⟨⟨final, area, shared⟩, by simp only [BootM.onHart, ran], registers, same, rfl, rfl⟩

end Gives

/-- Where presets can be written, an action writes them in turn, and changes nothing else but the
terminal. -/
def Sets (action : BootM α) (file : CsrFile) (result : α) (presets : List Preset) : Prop :=
  ∀ machine : Machine, machine.hart.csrs = file → file.Takes presets →
    ∃ terminal, action machine = .ok result { machine with
      hart := machine.hart.setAll presets
      shared := { machine.shared with terminal } }

namespace Sets

theorem pure (result : α) (file : CsrFile) : Sets (Pure.pure result) file result [] :=
  fun machine _ _ => ⟨machine.shared.terminal, rfl⟩

theorem append {action : BootM α} {next : α → BootM β} {result : α} {outcome : β}
    {first second : List Preset} (early : Sets action file result first)
    (late : Sets (next result) (file.presetAll first) outcome second) :
    Sets (action >>= next) file outcome (first ++ second) := by
  rintro machine rfl takes
  obtain ⟨now, later⟩ := CsrFile.takes_append.mp takes
  obtain ⟨terminal, ran⟩ := early machine rfl now
  have ready : (machine.hart.csrs.presetAll first).Takes second := by
    rwa [(machine.hart.csrs.evolves_presetAll first).takes_iff]
  obtain ⟨last, ended⟩ := late { machine with
    hart := machine.hart.setAll first
    shared := { machine.shared with terminal } } (Hart.csrs_setAll machine.hart first) ready
  refine ⟨last, ?_⟩
  rw [bind_ok ran, ended, Hart.setAll_append]

/-- What comes first writes nothing. -/
theorem idle {action : BootM α} {next : α → BootM β} {result : α} {outcome : β}
    {presets : List Preset} (early : Sets action file result [])
    (late : Sets (next result) file outcome presets) :
    Sets (action >>= next) file outcome presets := early.append late

theorem onHart {action : HartM α} {result : α} {presets : List Preset}
    (sets : HartM.Sets action file result presets) :
    Sets (BootM.onHart action) file result presets := by
  rintro machine rfl takes
  refine ⟨machine.shared.terminal, onHart_eq_ok_iff.mpr ⟨_, sets machine.hart rfl takes, rfl⟩⟩

/-- A report whose message is known writes nothing. -/
theorem diagnose (text : String) (level : Level) (target : String) :
    Sets (BootM.diagnose level target (Pure.pure text)) file () [] :=
  fun _ _ _ => diagnose_ok rfl level target

/-- Writing presets leaves them in the registers. -/
theorem gives {action : BootM α} {result : α} {presets : List Preset}
    (sets : Sets action file result presets) (takes : file.Takes presets) :
    Gives action file result (file.presetAll presets) := by
  rintro machine rfl
  obtain ⟨terminal, ran⟩ := sets machine rfl takes
  exact ⟨_, ran, machine.hart.csrs_setAll presets, (machine.hart.logs_setAll presets).outages, rfl,
    rfl⟩

end Sets

end BootM

namespace CsrFile

/-- Registers numbered outside of memory protection stay as they are when entries are programmed. -/
theorem getElem?_programAll (file : CsrFile) (settings : List PmpSetting) {csr : Csr}
    (outside : csr.number.toNat < 0x3a0 ∨ 0x3f0 ≤ csr.number.toNat) :
    (file.programAll settings)[csr]? = file[csr]? := by
  apply (evolves_programAll file settings).frame
  rintro ⟨entry, rfl | rfl⟩
  · rw [Csr.number_pmpaddr] at outside
    omega
  · rw [PmpSetting.configRegister, Csr.number_pmpcfg] at outside
    dsimp only at outside
    omega

end CsrFile

/-- A machine whose hart has all protection entries and a number, and no outages. -/
structure Machine.Ready (bits : Word) (machine : Machine) : Prop where
  equipped : machine.hart.csrs.HasPmp bits
  numbered : ∃ id, machine.hart.csrs.value? .mhartid = some id
  steady : machine.hart.outages = []

/-- Accepted writes keep a machine ready. -/
theorem Machine.Ready.evolve {bits : Word} {touched : Csr → Prop} {machine later : Machine}
    (ready : machine.Ready bits)
    (evolves : CsrFile.Evolves touched machine.hart.csrs later.hart.csrs)
    (steady : later.hart.outages = []) : later.Ready bits where
  equipped := ready.equipped.evolve evolves
  numbered := by
    obtain ⟨id, numbered⟩ := ready.numbered
    obtain ⟨register, found, -⟩ := Option.map_eq_some_iff.mp numbered
    obtain ⟨rewritten, stored, -⟩ := evolves.of_some found
    exact ⟨rewritten.value, CsrFile.value?_of_some stored⟩
  steady := steady

namespace BootM

variable {bits : Word} {file : CsrFile}

theorem sets_carryOut {verdict : Verdict} (admits : file.Admits verdict.settings)
    (domain : String) :
    Sets (carryOut domain verdict) file () (file.planPresets verdict.settings) := by
  cases verdict with
  | placed region settings => exact .onHart (HartM.sets_applyAll admits)
  | unprotectable region error => exact .diagnose _ _ _
  | noRoom region => exact .diagnose _ _ _
  | unencodable region error => exact .diagnose _ _ _
  | exhausted regions => exact .diagnose _ _ _

/-- A region that is passed over costs a line of diagnostics. -/
theorem carryOut_of_skipped {verdict : Verdict} (skipped : verdict.region? = none) (domain : String)
    (machine : Machine) : ∃ terminal, carryOut domain verdict machine =
      .ok () { machine with shared := { machine.shared with terminal } } := by
  have idle : verdict.settings = [] := by
    cases verdict with
    | placed region settings => cases skipped
    | _ => rfl
  have admits : machine.hart.csrs.Admits verdict.settings := idle ▸ nofun
  obtain ⟨terminal, reported⟩ := sets_carryOut admits domain machine rfl admits.takes
  rw [idle] at reported
  exact ⟨terminal, reported⟩

/-- Verdicts are carried out in turn. -/
theorem sets_carryOutAll {verdicts : List Verdict}
    (admits : file.Admits (verdicts.flatMap Verdict.settings)) (domain : String) :
    Sets (verdicts.forM (carryOut domain)) file ()
      (file.planPresets (verdicts.flatMap Verdict.settings)) := by
  induction verdicts generalizing file with
  | nil => exact .pure () file
  | cons verdict rest ih =>
    rw [List.flatMap_cons] at admits ⊢
    have now : file.Admits verdict.settings :=
      fun setting member => admits setting (List.mem_append_left _ member)
    have next : file.Admits (rest.flatMap Verdict.settings) :=
      fun setting member => admits setting (List.mem_append_right _ member)
    rw [CsrFile.planPresets_append]
    refine (sets_carryOut now domain).append ?_
    rw [CsrFile.presetAll_planPresets]
    exact ih (next.evolve (file.evolves_programAll _))

/-- Configuration writes what is in the plan for the regions of the domain and reports how much that
is, whenever the registers of the plan accept writes. -/
theorem sets_configure {record : FeatureRecord} {domain : Domain}
    (admits : file.Admits (plan record 0 domain.regions)) {id : Word}
    (numbered : file.value? .mhartid = some id) :
    Sets (configure record domain) file
      { slots := (plan record 0 domain.regions).length
        configured := (placed record 0 domain.regions).length
        skipped := domain.regions.length - (placed record 0 domain.regions).length }
      (file.planPresets (plan record 0 domain.regions)) := by
  rw [configure]
  dsimp only
  split
  next empty =>
    obtain ⟨nothing, none⟩ := plan_of_full (Nat.le_of_eq empty) domain.regions
    rw [nothing, none]
    exact .pure _ file
  next =>
    have counted := report_plan record 0 domain.regions {}
    simp only [Nat.zero_add] at counted
    have kept : (file.programAll (plan record 0 domain.regions)).value? .mhartid = some id := by
      rw [CsrFile.value?, CsrFile.getElem?_programAll file _ (.inr (by decide))]
      exact numbered
    rw [← List.append_nil (file.planPresets _)]
    refine (sets_carryOutAll admits domain.name).append ?_
    rw [← plan, CsrFile.presetAll_planPresets, PmpReport.ofVerdicts, counted]
    have named : HartM.Sets HartM.hartId (file.programAll (plan record 0 domain.regions)) id [] :=
      fun hart registers _ => HartM.read_eq (registers ▸ kept)
    refine (Sets.onHart named).idle ?_
    split
    · exact (Sets.diagnose _ _ _).idle (.pure _ _)
    · exact (Sets.pure _ _).idle (.pure _ _)

/-- Configuration programs the plan for the regions of the domain and reports what is in it,
whenever the registers of the plan accept writes. -/
theorem gives_configure_of_admits {record : FeatureRecord} {domain : Domain}
    (admits : file.Admits (plan record 0 domain.regions)) {id : Word}
    (numbered : file.value? .mhartid = some id) :
    Gives (configure record domain) file
      { slots := (plan record 0 domain.regions).length
        configured := (placed record 0 domain.regions).length
        skipped := domain.regions.length - (placed record 0 domain.regions).length }
      (file.programAll (plan record 0 domain.regions)) := by
  rw [← CsrFile.presetAll_planPresets]
  exact (sets_configure admits numbered).gives admits.takes

/-- A hart with all entries can be given any domain. -/
theorem gives_configure (equipped : file.HasPmp bits) {id : Word}
    (numbered : file.value? .mhartid = some id) (record : FeatureRecord) (domain : Domain) :
    Gives (configure record domain) file
      { slots := (plan record 0 domain.regions).length
        configured := (placed record 0 domain.regions).length
        skipped := domain.regions.length - (placed record 0 domain.regions).length }
      (file.programAll (plan record 0 domain.regions)) :=
  gives_configure_of_admits (equipped.acceptsPmp.admits _) numbered

end BootM

end HartBoot
