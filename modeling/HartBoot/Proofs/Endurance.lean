import HartBoot.Proofs.Checked
import HartBoot.Proofs.Restoration

/-! # What a hart withstands

Detection and the protection of a domain cannot bring a hart down. Detection stops for one reason,
a granularity that does not fit a word. Protection writes without a guard, but only to entries that
detection has counted, and these keep what is written to them; so whatever the regions of a domain
are and whatever diagnostics are let through, it ends.
-/

namespace HartBoot

namespace CsrFile

/-- Entries that are counted accept writes. -/
theorem accepts_of_counted {file : CsrFile}
    (fits : file.pattern = 0 ∨ Word.trailingZeros file.pattern < 62) {entry : Fin 64}
    (counted : entry.val < file.survey.pmpCount.toNat) :
    file.accepts (Csr.pmpaddr entry) = true := by
  have described := file.describes_survey fits
  have present : file.pattern ≠ 0 := by
    intro missing
    rw [(described.unprotected missing).1] at counted
    exact absurd counted (Nat.not_lt_zero _)
  obtain ⟨register, found, unlocked, -⟩ :=
    keeps_iff.mp ((described.entries present).1.2 entry counted)
  exact accepts_iff.mpr ⟨register, found, unlocked⟩

/-- The registers of a plan that keeps to the counted entries accept writes. -/
theorem admits_plan_survey {file : CsrFile}
    (fits : file.pattern = 0 ∨ Word.trailingZeros file.pattern < 62)
    (configurable : ∀ index : Fin 16, index.val % 2 = 0 → file.accepts (Csr.pmpcfg index) = true)
    (regions : List Region) : file.Admits (plan file.survey 0 regions) := by
  intro setting member
  refine ⟨accepts_of_counted fits (entry_lt_of_mem_plan member), configurable _ ?_⟩
  exact Nat.mul_mod_left _ 2

end CsrFile

namespace HartM

/-- Detection stops exactly where the granularity does not fit a word. -/
theorem detect_stops_iff {hart : Hart} (steady : hart.outages = []) :
    (∃ stop final, detect hart = .error stop final) ↔
      hart.csrs.accepts .pmpcfg0 = true ∧ ∃ kept,
        hart.csrs.retained? .pmpaddr0 addressPattern = some kept ∧ kept ≠ 0 ∧
          2 ^ 62 ∣ kept.toNat := by
  constructor
  · rintro ⟨stop, final, stopped⟩
    by_contra narrow
    obtain ⟨after, ran, -⟩ :=
      gives_detect hart.csrs (hart.csrs.fits_iff.mpr narrow) hart rfl steady
    rw [stopped] at ran
    cases ran
  · intro tooCoarse
    have unfit := mt hart.csrs.fits_iff.mp (not_not.mpr tooCoarse)
    obtain ⟨final, stopped⟩ := detect_of_not_fits steady unfit
    exact ⟨_, final, stopped⟩

/-- A shift is the only thing that stops detection. -/
theorem stop_of_detect {hart final : Hart} {stop : Stop} (steady : hart.outages = [])
    (stopped : detect hart = .error stop final) : stop = .overflow .shiftLeft := by
  have tooCoarse := (detect_stops_iff steady).mp ⟨stop, final, stopped⟩
  obtain ⟨halted, overflows⟩ :=
    detect_of_not_fits steady (mt hart.csrs.fits_iff.mp (not_not.mpr tooCoarse))
  rw [stopped] at overflows
  exact (EStateM.Result.error.inj overflows).1

end HartM

namespace BootM

/-- A hart with a number that takes configurations can be given any domain right after detection. -/
theorem configure_of_detect {machine middle : Machine} {record : FeatureRecord}
    (steady : machine.hart.outages = [])
    (detected : onHart HartM.detect machine = .ok record middle)
    (configurable : ∀ index : Fin 16, index.val % 2 = 0 →
      machine.hart.csrs.accepts (Csr.pmpcfg index) = true)
    (numbered : (machine.hart.csrs.value? .mhartid).isSome = true) (domain : Domain)
    (shared : Shared) :
    ∃ report final, configure record domain { middle with shared } = .ok report final := by
  obtain ⟨id, numbered⟩ := Option.isSome_iff_exists.mp numbered
  obtain ⟨after, ran, rfl⟩ := onHart_eq_ok_iff.mp detected
  have fits := HartM.fits_of_detect steady ran
  obtain ⟨ended, again, registers, -⟩ :=
    HartM.gives_detect machine.hart.csrs fits machine.hart rfl steady
  rw [ran] at again
  obtain ⟨rfl, rfl⟩ := EStateM.Result.ok.inj again
  have probed := machine.hart.csrs.evolves_probed
  rw [← registers] at probed
  have spared : ¬(Csr.mhartid = .pmpcfg0 ∨ Csr.mhartid = .pmpaddr0) := by decide
  have kept : after.csrs.value? .mhartid = some id := by
    rw [CsrFile.value?, probed.frame _ spared]
    exact numbered
  have admits := (CsrFile.admits_plan_survey fits configurable domain.regions).evolve probed
  obtain ⟨final, configured, -⟩ :=
    gives_configure_of_admits admits kept { machine with hart := after, shared } rfl
  exact ⟨_, final, configured⟩

/-- Detection stops a hart exactly where the first address register keeps one of the two highest
bits of a word and none below, and then because of a shift. Where it ends, the hart can be given
any domain with the detected record, provided that it has a number and takes configurations,
whatever diagnostics are let through. All of this is so in checked arithmetic too, as long as the
regions of the domain can be counted. -/
theorem detect_configure_endure (machine : Machine) (steady : machine.hart.outages = []) :
    HartM.detectChecked = HartM.detect ∧
    ((∃ stop final, onHart HartM.detect machine = .error stop final) ↔
      machine.hart.csrs.accepts .pmpcfg0 = true ∧ ∃ kept,
        machine.hart.csrs.retained? .pmpaddr0 HartM.addressPattern = some kept ∧ kept ≠ 0 ∧
          2 ^ 62 ∣ kept.toNat) ∧
    (∀ stop final, onHart HartM.detect machine = .error stop final →
      stop = .overflow .shiftLeft) ∧
    ∀ record middle, onHart HartM.detect machine = .ok record middle →
      (∀ index : Fin 16, index.val % 2 = 0 →
        machine.hart.csrs.accepts (Csr.pmpcfg index) = true) →
      (machine.hart.csrs.value? .mhartid).isSome = true →
      ∀ (domain : Domain) (shared : Shared), ∃ report final,
        configure record domain { middle with shared } = .ok report final ∧
        (domain.regions.length ≤ Word.ones.toNat →
          configureChecked record domain { middle with shared } = .ok report final) := by
  refine ⟨HartM.detectChecked_eq, ?_, ?_, ?_⟩
  · rw [← HartM.detect_stops_iff steady]
    constructor
    · rintro ⟨stop, final, stopped⟩
      obtain ⟨hart, failed, -⟩ := onHart_eq_error_iff.mp stopped
      exact ⟨stop, hart, failed⟩
    · rintro ⟨stop, hart, failed⟩
      exact ⟨stop, _, onHart_eq_error_iff.mpr ⟨hart, failed, rfl⟩⟩
  · intro stop final stopped
    obtain ⟨hart, failed, -⟩ := onHart_eq_error_iff.mp stopped
    exact HartM.stop_of_detect steady failed
  · intro record middle detected configurable numbered domain shared
    obtain ⟨report, final, configured⟩ :=
      configure_of_detect steady detected configurable numbered domain shared
    refine ⟨report, final, configured, fun counted => ?_⟩
    rw [configureChecked_eq record counted]
    exact configured

/-- Regions may be larger than the address space, and may run past its top. -/
theorem detect_configure_endure_numbered :
    let machine : Machine := ⟨Hart.numbered.withPmp Word.ones, .blank, {}⟩
    let domain : Domain := {
      name := "oversized"
      bootHart := 0
      regions := [{ base := Word.ones, extent := .napot 70, flags := RegionFlags.readable },
        { base := Word.ones, extent := .tor Word.ones, flags := RegionFlags.writeable }] }
    machine.hart.outages = [] ∧ domain.regions.length ≤ Word.ones.toNat ∧
      (∀ index : Fin 16, index.val % 2 = 0 →
        machine.hart.csrs.accepts (Csr.pmpcfg index) = true) ∧
      (machine.hart.csrs.value? .mhartid).isSome = true ∧
      ∃ record middle, onHart HartM.detect machine = .ok record middle ∧
        ∀ shared : Shared, ∃ report final,
          configure record domain { middle with shared } = .ok report final ∧
          configureChecked record domain { middle with shared } = .ok report final := by
  intro machine domain
  have equipped : machine.hart.csrs.HasPmp Word.ones := Hart.hasPmp_withPmp _ _
  have steady : machine.hart.outages = [] := by decide +kernel
  have counted : domain.regions.length ≤ Word.ones.toNat := by decide
  obtain ⟨low, -⟩ := @CsrFile.HasPmp.survey_eq _ _ 54 equipped (by decide) (by decide) rfl
  obtain ⟨after, ran, -⟩ :=
    HartM.gives_detect machine.hart.csrs (.inr low) machine.hart rfl steady
  have detected : onHart HartM.detect machine =
      .ok machine.hart.csrs.survey { machine with hart := after } :=
    onHart_eq_ok_iff.mpr ⟨after, ran, rfl⟩
  have numbered : (machine.hart.csrs.value? .mhartid).isSome = true := by
    rw [Hart.value?_numbered_withPmp]
    rfl
  have configurable (index : Fin 16) (even : index.val % 2 = 0) :
      machine.hart.csrs.accepts (Csr.pmpcfg index) = true := by
    have accepted := equipped.accepts_config ⟨index.val * 4, by omega⟩
    rw [PmpSetting.configRegister] at accepted
    have same : index.val * 4 / 8 * 2 = index.val := by omega
    simpa only [same] using accepted
  refine ⟨steady, counted, configurable, numbered, _, _, detected, fun shared => ?_⟩
  obtain ⟨report, final, configured, checks⟩ := (detect_configure_endure machine steady).2.2.2 _ _
    detected configurable numbered domain shared
  exact ⟨report, final, configured, checks counted⟩

end BootM

end HartBoot
