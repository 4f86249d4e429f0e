import HartBoot.Proofs.Baseline
import HartBoot.Proofs.Booting
import HartBoot.Proofs.Survey

/-! # What initialization does

Initialization either finds no place for the feature record and changes nothing, or it leaves the
survey of the register file at that place, together with the traces of probing, and goes on to the
baseline. In the second case it may still stop on the way to the baseline, but no protection entry
is touched there.
-/

namespace HartBoot.BootM

variable {α : Type} {machine : Machine}

/-- What a machine has become when an action on it ended or stopped. -/
def finalMachine (action : BootM α) (machine : Machine) : Machine :=
  match action machine with
  | .ok _ final => final
  | .error _ final => final

theorem hart_finalMachine_onHart (action : HartM α) (machine : Machine) :
    (finalMachine (onHart action) machine).hart = HartM.finalHart action machine.hart := by
  obtain ⟨hart, area, shared⟩ := machine
  simp only [finalMachine, onHart, HartM.finalHart]
  cases action hart <;> rfl

/-- Looking for the place of the feature record depends on the shared memory alone. -/
theorem featureOffset_eq (cold : Bool) (machine : Machine) :
    featureOffset cold machine =
      if cold then
        match machine.shared.reserveFeatures with
        | some (offset, shared) => .ok (.ok offset) { machine with shared }
        | none => .ok (.error .noMemory) machine
      else
        match machine.shared.featureOffset with
        | some offset => .ok (.ok offset) machine
        | none => .ok (.error .uninitialized) machine := by
  rw [featureOffset, bind_ok (get_eq machine)]
  cases cold with
  | true => cases machine.shared.reserveFeatures <;> rfl
  | false => cases machine.shared.featureOffset <;> rfl

/-- A place that was reserved is the place from then on. -/
theorem featureOffset_of_reserveFeatures {shared extended : Shared} {offset : Offset FeatureRecord}
    (reserved : shared.reserveFeatures = some (offset, extended)) :
    extended.featureOffset = some offset := by
  unfold Shared.reserveFeatures at reserved
  split at reserved
  next found =>
    obtain ⟨rfl, rfl⟩ := Prod.mk.inj (Option.some.inj reserved)
    exact found
  next =>
    obtain ⟨⟨place, offsets⟩, -, same⟩ := Option.map_eq_some_iff.mp reserved
    obtain ⟨rfl, rfl⟩ := Prod.mk.inj same
    rfl

theorem featureOffset_cases (cold : Bool) (machine : Machine) :
    (∃ error, featureOffset cold machine = .ok (.error error) machine) ∨
    ∃ offset shared, featureOffset cold machine = .ok (.ok offset) { machine with shared } ∧
      shared.featureOffset = some offset := by
  rw [featureOffset_eq]
  cases cold with
  | true =>
    rw [if_pos rfl]
    cases reserved : machine.shared.reserveFeatures with
    | none => exact .inl ⟨.noMemory, rfl⟩
    | some place => exact .inr ⟨place.1, place.2, rfl, featureOffset_of_reserveFeatures reserved⟩
  | false =>
    rw [if_neg Bool.false_ne_true]
    cases found : machine.shared.featureOffset with
    | none => exact .inl ⟨.uninitialized, rfl⟩
    | some offset => exact .inr ⟨offset, machine.shared, rfl, found⟩

/-- A place that is reserved is the place, on a cold boot and on a warm one. -/
theorem featureOffset_of_reserved {cold : Bool} {offset : Offset FeatureRecord}
    (reserved : machine.shared.featureOffset = some offset) :
    featureOffset cold machine = .ok (.ok offset) machine := by
  have again : machine.shared.reserveFeatures = some (offset, machine.shared) := by
    simp only [Shared.reserveFeatures, reserved]
  rw [featureOffset_eq, again, reserved]
  cases cold <;> rfl

/-- Without a place for the feature record, there was none before, and none could be reserved. -/
theorem of_featureOffset_error {cold : Bool} {error : HartError}
    (refused : featureOffset cold machine = .ok (.error error) machine) :
    machine.shared.featureOffset = none ∧
      (cold = true → machine.shared.reserveFeatures = none) ∧ error ≠ .invalidState := by
  have missing : machine.shared.featureOffset = none := by
    by_contra present
    obtain ⟨offset, reserved⟩ := Option.ne_none_iff_exists'.mp present
    rw [featureOffset_of_reserved reserved] at refused
    cases refused
  refine ⟨missing, ?_, ?_⟩
  · rintro rfl
    by_contra reservable
    obtain ⟨place, reserved⟩ := Option.ne_none_iff_exists'.mp reservable
    rw [featureOffset_eq, if_pos rfl, reserved] at refused
    cases refused
  · rintro rfl
    rw [featureOffset_eq, missing] at refused
    split at refused
    · split at refused <;> cases refused
    · cases refused

/-- The report on features changes nothing but the terminal. -/
theorem reportFeatures_ok {id : Word} (numbered : machine.hart.csrs.value? .mhartid = some id)
    (record : FeatureRecord) : ∃ terminal, reportFeatures record machine =
      .ok () { machine with shared := { machine.shared with terminal } } := by
  have present : machine.hart.value? .mhartid = some id := numbered
  have named : onHart HartM.hartId machine = .ok id machine := by
    simp only [onHart, HartM.hartId, HartM.read, present]
  exact diagnose_ok (bind_ok named _) .debug initTarget

/-- With a place for the feature record, initialization detects a record, stores it, and brings the
hart to the baseline that the record asks for. -/
theorem init_of_place (platform : Platform) {cold : Bool} {shared : Shared}
    {offset : Offset FeatureRecord}
    (given : featureOffset cold machine = .ok (.ok offset) { machine with shared })
    (place : shared.featureOffset = some offset) (steady : machine.hart.outages = [])
    (fits : machine.hart.csrs.pattern = 0 ∨ Word.trailingZeros machine.hart.csrs.pattern < 62)
    {id : Word} (numbered : machine.hart.csrs.value? .mhartid = some id) :
    ∃ middle, init platform cold machine =
        onHart (HartM.restore machine.hart.csrs.survey platform) middle ∧
      middle.hart.csrs = machine.hart.csrs.probed ∧ middle.hart.outages = [] ∧
      middle.shared.featureOffset = some offset ∧
      middle.area.get offset = machine.hart.csrs.survey ∧
      HartM.detect machine.hart = .ok machine.hart.csrs.survey middle.hart := by
  obtain ⟨hart, area, before⟩ := machine
  obtain ⟨detected, ran, registers, quiet⟩ := HartM.gives_detect hart.csrs fits hart rfl steady
  have probing : onHart HartM.detect ⟨hart, area, shared⟩ =
      .ok hart.csrs.survey ⟨detected, area, shared⟩ := by
    simp only [onHart, ran]
  have kept : detected.csrs.value? .mhartid = some id := by
    have spared : ¬(Csr.mhartid = .pmpcfg0 ∨ Csr.mhartid = .pmpaddr0) := by decide
    rw [registers, CsrFile.value?, hart.csrs.evolves_probed.frame _ spared]
    exact numbered
  let stored : Machine := ⟨detected, area.put offset hart.csrs.survey, shared⟩
  obtain ⟨terminal, reported⟩ := @reportFeatures_ok stored id kept hart.csrs.survey
  have found : stored.area.get offset = hart.csrs.survey := area.get_put offset hart.csrs.survey
  refine ⟨{ stored with shared := { shared with terminal } }, ?_, registers, quiet, place, found, ran⟩
  rw [init, bind_ok given]
  refine (bind_ok probing _).trans ?_
  refine (bind_ok rfl _).trans ?_
  refine (bind_ok reported _).trans ?_
  rw [reinit]
  refine (bind_ok rfl _).trans ?_
  dsimp only [stored]
  rw [place]
  dsimp only
  rw [area.get_put offset hart.csrs.survey]

/-- Initialization is refused with nothing changed, or brings a hart to its baseline from a record
that has just been detected and stored. -/
theorem init_cases (platform : Platform) (cold : Bool) (steady : machine.hart.outages = [])
    (fits : machine.hart.csrs.pattern = 0 ∨ Word.trailingZeros machine.hart.csrs.pattern < 62)
    {id : Word} (numbered : machine.hart.csrs.value? .mhartid = some id) :
    (∃ error, init platform cold machine = .ok (.error error) machine) ∨
    ∃ offset middle, init platform cold machine =
        onHart (HartM.restore machine.hart.csrs.survey platform) middle ∧
      middle.hart.csrs = machine.hart.csrs.probed ∧ middle.hart.outages = [] ∧
      middle.shared.featureOffset = some offset ∧
      middle.area.get offset = machine.hart.csrs.survey := by
  rcases featureOffset_cases cold machine with ⟨error, refused⟩ | ⟨offset, shared, given, place⟩
  · left
    refine ⟨error, ?_⟩
    rw [init, bind_ok refused]
    rfl
  · right
    obtain ⟨middle, restores, registers, quiet, located, stored, -⟩ :=
      init_of_place platform given place steady fits numbered
    exact ⟨offset, middle, restores, registers, quiet, located, stored⟩

end HartBoot.BootM
