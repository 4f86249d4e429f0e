import HartBoot.Proofs.Entries
import HartBoot.Proofs.Presets

/-! # Programming entries as a list of presets

Programming an entry writes to its address register and then to its configuration register, where it
replaces one octet. What is written there depends on what the register held before, so the presets
of a list of settings are told from the registers that it starts from, one setting after the other.
Programming the settings writes these presets and does nothing else.
-/

namespace HartBoot

/-- The registers of an entry, in the order in which they are written. -/
def PmpSetting.registers (entry : Fin 64) : List Csr := [Csr.pmpaddr entry, configRegister entry]

namespace CsrFile

/-- What programming an entry writes. -/
def settingPresets (file : CsrFile) (setting : PmpSetting) : List Preset :=
  let register := PmpSetting.configRegister setting.entry
  [{ csr := Csr.pmpaddr setting.entry, written := setting.address },
    { csr := register
      written := PmpSetting.replaceOctet ((file.value? register).getD 0)
        (PmpSetting.octetShift setting.entry) setting.config.bits }]

/-- What programming entries in turn writes. -/
def planPresets (file : CsrFile) : List PmpSetting → List Preset
  | [] => []
  | setting :: rest => file.settingPresets setting ++ (file.program setting).planPresets rest

variable {file : CsrFile} {settings : List PmpSetting}

theorem presetAll_settingPresets (file : CsrFile) (setting : PmpSetting) :
    file.presetAll (file.settingPresets setting) = file.program setting := rfl

/-- Programming entries writes to their registers in order. -/
theorem map_csr_planPresets (file : CsrFile) (settings : List PmpSetting) :
    (file.planPresets settings).map Preset.csr =
      (settings.map PmpSetting.entry).flatMap PmpSetting.registers := by
  induction settings generalizing file with
  | nil => rfl
  | cons setting rest ih =>
    rw [planPresets, List.map_append, ih, List.map_cons, List.flatMap_cons]
    rfl

/-- What is written in a plan leaves the entries programmed. -/
theorem presetAll_planPresets (file : CsrFile) (settings : List PmpSetting) :
    file.presetAll (file.planPresets settings) = file.programAll settings := by
  induction settings generalizing file with
  | nil => rfl
  | cons setting rest ih =>
    rw [planPresets, presetAll_append, presetAll_settingPresets, ih]
    rfl

theorem planPresets_append (file : CsrFile) (first second : List PmpSetting) :
    file.planPresets (first ++ second) =
      file.planPresets first ++ (file.programAll first).planPresets second := by
  induction first generalizing file with
  | nil => rfl
  | cons setting rest ih =>
    rw [List.cons_append, planPresets, ih, planPresets, List.append_assoc]
    rfl

theorem applies_of_mem_planPresets {preset : Preset} (member : preset ∈ file.planPresets settings) :
    preset.applies = true := by
  induction settings generalizing file with
  | nil => exact absurd member List.not_mem_nil
  | cons setting rest ih =>
    rcases List.mem_append.mp member with now | later
    · simp only [settingPresets, List.mem_cons, List.not_mem_nil, or_false] at now
      rcases now with rfl | rfl <;> rfl
    · exact ih later

theorem Admits.takes (admits : file.Admits settings) : file.Takes (file.planPresets settings) := by
  rw [takes_iff]
  intro preset member _
  have named : preset.csr ∈ (settings.map PmpSetting.entry).flatMap PmpSetting.registers :=
    map_csr_planPresets file settings ▸ List.mem_map_of_mem member
  obtain ⟨entry, listed, among⟩ := List.mem_flatMap.mp named
  obtain ⟨setting, present, rfl⟩ := List.mem_map.mp listed
  simp only [PmpSetting.registers, List.mem_cons, List.not_mem_nil, or_false] at among
  rcases among with same | same
  · exact same ▸ (admits setting present).1
  · exact same ▸ (admits setting present).2

end CsrFile

/-- Everything that is written in a plan leaves a mark of its own. -/
theorem Hart.logs_planPresets (hart : Hart) (settings : List PmpSetting) :
    let presets := hart.csrs.planPresets settings
    let steps := presets.map fun preset => (preset.csr, preset.written)
    hart.Logs steps (hart.setAll presets) ∧
      (hart.setAll presets).trace.toList =
        hart.trace.toList ++ steps.map fun step => .write step.1 step.2 := by
  intro presets steps
  have whole : presets.filter Preset.applies = presets :=
    List.filter_eq_self.mpr fun preset member => CsrFile.applies_of_mem_planPresets member
  have logged := hart.logs_setAll presets
  have traced := hart.trace_setAll presets
  rw [whole] at logged traced
  refine ⟨logged, traced.trans ?_⟩
  rw [List.map_map]
  rfl

namespace HartM

variable {file : CsrFile}

theorem sets_apply (setting : PmpSetting)
    (configurable : file.accepts (PmpSetting.configRegister setting.entry) = true) :
    Sets setting.apply file () (file.settingPresets setting) := by
  obtain ⟨register, found, -⟩ := CsrFile.accepts_iff.mp configurable
  have present := CsrFile.value?_of_some found
  refine .known (fun hart registers => read_eq (registers ▸ present)) ?_
  rw [CsrFile.settingPresets, present]
  exact .cons rfl (.last rfl nofun)

/-- Programming entries writes the presets of the plan in turn. -/
theorem sets_applyAll {settings : List PmpSetting} (admits : file.Admits settings) :
    Sets (settings.forM PmpSetting.apply) file () (file.planPresets settings) := by
  induction settings generalizing file with
  | nil => exact .pure () file
  | cons setting rest ih =>
    have others : file.Admits rest :=
      fun other member => admits other (List.mem_cons_of_mem _ member)
    refine (sets_apply setting (admits setting List.mem_cons_self).2).append ?_
    rw [CsrFile.presetAll_settingPresets]
    exact ih (others.evolve (file.evolves_program setting))

/-- Settings whose registers accept writes are programmed without a refusal. -/
theorem applySettings_ok {hart : Hart} {settings : List PmpSetting}
    (admits : hart.csrs.Admits settings) :
    applySettings (.ok settings) hart =
        .ok (.ok ()) (hart.setAll (hart.csrs.planPresets settings)) ∧
      (hart.setAll (hart.csrs.planPresets settings)).csrs = hart.csrs.programAll settings := by
  have sets : Sets (applySettings (.ok settings)) hart.csrs (.ok ())
      (hart.csrs.planPresets settings) := (sets_applyAll admits).answering _
  refine ⟨sets hart rfl admits.takes, ?_⟩
  rw [Hart.csrs_setAll, CsrFile.presetAll_planPresets]

end HartM

end HartBoot
