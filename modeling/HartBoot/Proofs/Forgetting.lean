import HartBoot.Proofs.Establishment
import HartBoot.Proofs.Operations

/-! # Initialization forgets the past

Whatever is done to a hart once it is initialized, it is done by accepted writes: no operation takes
a register away, changes the bits that software cannot change, or withdraws the place of the feature
record, even if it fails or stops the hart. What initialization detects, and what it leaves in the
registers of the baseline, is decided by such bits alone. A second initialization therefore ends as
the first one did, with the same record and the same baseline.
-/

namespace HartBoot

namespace Baseline

/-- The baseline of a register file, for the record that detection finds in it. -/
def ofFile (misa : Word) (platform : Platform) (file : CsrFile) : List Preset :=
  presets misa file.survey platform file (completes misa file)

/-- Initialization has written the whole baseline and stored the record that it belongs to. -/
structure Reached (misa : Word) (platform : Platform) (before : Machine)
    (result : Except HartError Unit) (after : Machine) : Prop where
  fits : before.hart.csrs.pattern = 0 ∨ Word.trailingZeros before.hart.csrs.pattern < 62
  answered : result = answer (completes misa before.hart.csrs)
  takes : before.hart.csrs.Takes (ofFile misa platform before.hart.csrs)
  registers : after.hart.csrs = before.hart.csrs.presetAll (ofFile misa platform before.hart.csrs)
  outages : after.hart.outages = []
  stored : ∃ offset, after.shared.featureOffset = some offset ∧
    after.area.get offset = before.hart.csrs.survey

variable {misa : Word} {platform : Platform} {touched : Csr → Prop}

/-- The baseline of a register file depends on nothing that writes can change. -/
theorem ofFile_evolve {before after : CsrFile} (evolves : CsrFile.Evolves touched before after) :
    ofFile misa platform after = ofFile misa platform before := by
  rw [ofFile, ofFile, presets_evolve evolves, completes_evolve evolves, evolves.survey_eq]

theorem Reached.evolves {before after : Machine} {result : Except HartError Unit}
    (reached : Reached misa platform before result after) :
    CsrFile.Evolves (fun _ => True) before.hart.csrs after.hart.csrs := by
  rw [reached.registers]
  exact (before.hart.csrs.evolves_presetAll _).mono fun _ _ => trivial

theorem Reached.features {before after : Machine} {result : Except HartError Unit}
    (reached : Reached misa platform before result after) :
    after.shared.features after.area = .ok before.hart.csrs.survey := by
  obtain ⟨offset, located, stored⟩ := reached.stored
  rw [Shared.features, located]
  exact congrArg Except.ok stored

/-- The same baseline is reached from machines whose registers differ by accepted writes. -/
theorem Reached.value?_eq {before first later second : Machine} {result again : Except HartError Unit}
    (reached : Reached misa platform before result first)
    (regained : Reached misa platform later again second)
    (evolves : CsrFile.Evolves touched before.hart.csrs later.hart.csrs) {preset : Preset}
    (member : preset ∈ ofFile misa platform before.hart.csrs) (applies : preset.applies = true) :
    ∃ value, first.hart.csrs.value? preset.csr = some value ∧
      second.hart.csrs.value? preset.csr = some value := by
  have same : ofFile misa platform later.hart.csrs = ofFile misa platform before.hart.csrs :=
    ofFile_evolve evolves
  have distinct : ((ofFile misa platform before.hart.csrs).map Preset.csr).Nodup :=
    nodup_presets _ _ _ _ _
  obtain ⟨register, found, -, left⟩ := reached.takes.exists_store distinct member applies
  obtain ⟨rewritten, present, -, again⟩ :=
    (same ▸ regained.takes).exists_store distinct member applies
  -- Both presets went to what is one register up to accepted writes, so it keeps the same of both.
  obtain ⟨other, held, rewrites⟩ := evolves.of_some found
  obtain rfl : rewritten = other := Option.some.inj (present.symm.trans held)
  refine ⟨register.settle preset.written, ?_, ?_⟩
  · rw [reached.registers]
    exact CsrFile.value?_of_some left
  · rw [regained.registers, same, CsrFile.value?_of_some again, rewrites.store_eq, Register.store]

end Baseline

namespace BootM

variable {machine : Machine} {misa : Word} {platform : Platform} {cold : Bool}

/-- With a place for the feature record, initialization reaches the baseline or stops. -/
theorem init_reaches (platform : Platform) {shared : Shared} {offset : Offset FeatureRecord}
    (given : featureOffset cold machine = .ok (.ok offset) { machine with shared })
    (place : shared.featureOffset = some offset) (steady : machine.hart.outages = [])
    (fits : machine.hart.csrs.pattern = 0 ∨ Word.trailingZeros machine.hart.csrs.pattern < 62)
    (numbered : (machine.hart.csrs.value? .mhartid).isSome = true)
    (found : machine.hart.csrs.value? .misa = some misa) :
    (∃ result final, init platform cold machine = .ok result final ∧
      Baseline.Reached misa platform machine result final) ∨
    (¬machine.hart.csrs.Takes (Baseline.ofFile misa platform machine.hart.csrs) ∧
      ∃ stop final, init platform cold machine = .error stop final) := by
  rcases init_runs platform given place steady fits numbered found rfl rfl with
    ⟨takes, final, ended, registers, outages, -, located, stored⟩ | stopped
  · exact .inl ⟨_, final, ended, fits, rfl, takes, registers, outages, offset, located, stored⟩
  · exact .inr stopped

/-- Initialization that detects ends only where the granularity of the first entry fits a word. -/
theorem fits_of_init {shared : Shared} {offset : Offset FeatureRecord}
    {result : Except HartError Unit} {final : Machine}
    (given : featureOffset cold machine = .ok (.ok offset) { machine with shared })
    (steady : machine.hart.outages = []) (ended : init platform cold machine = .ok result final) :
    machine.hart.csrs.pattern = 0 ∨ Word.trailingZeros machine.hart.csrs.pattern < 62 := by
  by_contra tooCoarse
  obtain ⟨hart, stopped⟩ := HartM.detect_of_not_fits steady tooCoarse
  have halted : onHart HartM.detect { machine with shared } =
      .error (.overflow .shiftLeft) { machine with shared, hart } :=
    onHart_eq_error_iff.mpr ⟨hart, stopped, rfl⟩
  rw [init, bind_ok given] at ended
  simp only [Bind.bind, EStateM.bind, halted] at ended
  cases ended

/-- Initialization that ended, and not for want of a place for the feature record, has reached the
baseline. -/
theorem reached_of_init {result : Except HartError Unit} {final : Machine}
    (steady : machine.hart.outages = [])
    (numbered : (machine.hart.csrs.value? .mhartid).isSome = true)
    (found : machine.hart.csrs.value? .misa = some misa)
    (ended : init platform cold machine = .ok result final)
    (placed : result = .ok () ∨ result = .error .invalidState) :
    Baseline.Reached misa platform machine result final := by
  rcases featureOffset_cases cold machine with ⟨error, refused⟩ | ⟨offset, shared, given, place⟩
  · obtain ⟨-, -, other⟩ := of_featureOffset_error refused
    rw [init, bind_ok refused] at ended
    obtain ⟨rfl, -⟩ := EStateM.Result.ok.inj ended
    rcases placed with succeeded | failed
    · cases succeeded
    · exact absurd (Except.error.inj failed) other
  · have fits := fits_of_init given steady ended
    rcases init_reaches platform given place steady fits numbered found with
      ⟨answer, last, ran, reached⟩ | ⟨-, stop, last, stopped⟩
    · obtain ⟨rfl, rfl⟩ := EStateM.Result.ok.inj (ended.symm.trans ran)
      exact reached
    · rw [ended] at stopped
      cases stopped

/-- A machine that descends from one at its baseline gets there again, by a cold boot or by a warm
one. -/
theorem init_of_reached {before first later : Machine} {result : Except HartError Unit}
    (reached : Baseline.Reached misa platform before result first)
    (descends : first.Descends (fun _ => True) later)
    (numbered : (later.hart.csrs.value? .mhartid).isSome = true)
    (found : later.hart.csrs.value? .misa = some misa) (again : Bool) :
    ∃ second, init platform again later = .ok result second ∧
      Baseline.Reached misa platform later result second := by
  obtain ⟨offset, located, -⟩ := reached.stored
  have reserved := descends.place offset located
  -- Whatever decides the course of initialization carries over from the first machine.
  have evolves := reached.evolves.trans descends.evolves
  have fits := reached.fits
  rw [← evolves.pattern_eq] at fits
  have takes := reached.takes
  rw [← evolves.takes_iff, ← Baseline.ofFile_evolve evolves] at takes
  have given : featureOffset again later = .ok (.ok offset) later :=
    featureOffset_of_reserved reserved
  have steady := descends.reaches.outages_eq.trans reached.outages
  rcases init_reaches platform given reserved steady fits numbered found with
    ⟨answer, second, ended, regained⟩ | ⟨refused, -⟩
  · obtain rfl : answer = result := by
      rw [regained.answered, reached.answered, Baseline.completes_evolve evolves]
    exact ⟨second, ended, regained⟩
  · exact absurd takes refused

/-- A second initialization of a hart ends as the first one did, with the same record and the same
baseline, whatever has been done to the hart in between. -/
theorem init_forgets (machine : Machine) (steady : machine.hart.outages = [])
    {advertised number : Register} (extensions : machine.hart.csrs[Csr.misa]? = some advertised)
    (fixed : advertised.readOnly = true)
    (numbered : machine.hart.csrs[Csr.mhartid]? = some number) (lasting : number.readOnly = true)
    (platform : Platform) (cold : Bool) {result : Except HartError Unit} {first : Machine}
    (ended : init platform cold machine = .ok result first)
    (placed : result = .ok () ∨ result = .error .invalidState) (history : List HartOperation)
    (again : Bool) :
    ∃ second, init platform again (first.operateAll history) = .ok result second ∧
      ∃ record, first.shared.features first.area = .ok record ∧
        second.shared.features second.area = .ok record ∧
        ∀ preset ∈ Baseline.presets advertised.value record platform machine.hart.csrs result.isOk,
          preset.applies = true → ∃ value, first.hart.csrs.value? preset.csr = some value ∧
            second.hart.csrs.value? preset.csr = some value := by
  have reached := reached_of_init steady
    (Option.isSome_of_eq_some (CsrFile.value?_of_some numbered)) (CsrFile.value?_of_some extensions)
    ended placed
  have descends := first.descends_operateAll history
  have evolves := reached.evolves.trans descends.evolves
  have stillNumbered := CsrFile.value?_of_some (evolves.of_readOnly numbered lasting)
  have stillAdvertised := CsrFile.value?_of_some (evolves.of_readOnly extensions fixed)
  obtain ⟨second, repeated, regained⟩ := init_of_reached reached descends
    (Option.isSome_of_eq_some stillNumbered) stillAdvertised again
  refine ⟨second, repeated, _, reached.features, ?_, fun preset member applies => ?_⟩
  · rw [regained.features, evolves.survey_eq]
  · rw [reached.answered, Baseline.isOk_answer] at member
    exact reached.value?_eq regained evolves member applies

/-- Later boot stages may write to what they find, and run into registers that are not there. -/
theorem init_forgets_supervised :
    Machine.supervised.hart.outages = [] ∧ ∃ advertised number,
      Machine.supervised.hart.csrs[Csr.misa]? = some advertised ∧ advertised.readOnly = true ∧
      Machine.supervised.hart.csrs[Csr.mhartid]? = some number ∧ number.readOnly = true ∧
      ∃ result first, init {} true Machine.supervised = .ok result first ∧
        (result = .ok () ∨ result = .error .invalidState) ∧
        ∃ second, init {} false (first.operateAll [
            .access (.write .satp 0x8000000000080000), .access (.swap .mstatus Word.ones),
            .call (.prepare ⟨0x80200000, .supervisor, false⟩),
            .access (.write .misa 0)]) = .ok result second ∧
          ∃ record, first.shared.features first.area = .ok record ∧
            second.shared.features second.area = .ok record ∧
            ∀ preset ∈ Baseline.presets advertised.value record {} Machine.supervised.hart.csrs
              result.isOk, preset.applies = true → ∃ value,
                first.hart.csrs.value? preset.csr = some value ∧
                second.hart.csrs.value? preset.csr = some value := by
  have steady : Machine.supervised.hart.outages = [] := by decide +kernel
  have fits : Machine.supervised.hart.csrs.pattern = 0 := by decide +kernel
  have bootable := Baseline.bootable_supervised
  have extensions : Machine.supervised.hart.csrs[Csr.misa]? = some
      { value := 0x800000000014112d, writable := 0, readOnly := true } := by decide +kernel
  have numbered : Machine.supervised.hart.csrs[Csr.mhartid]? = some
      { value := 0, writable := 0, readOnly := true } := by decide +kernel
  obtain ⟨offset, shared, given, place⟩ := @featureOffset_of_place Machine.supervised true
    (.inr ⟨rfl, by decide +kernel⟩)
  rcases init_reaches {} given place steady (.inl fits) bootable.numbered bootable.advertised with
    ⟨result, first, ended, reached⟩ | ⟨refused, -⟩
  · have placed : result = .ok () ∨ result = .error .invalidState :=
      reached.answered ▸ Baseline.answer_cases _
    exact ⟨steady, _, _, extensions, rfl, numbered, rfl, result, first, ended, placed,
      init_forgets Machine.supervised steady extensions rfl numbered rfl {} true ended placed _ false⟩
  · exact absurd (bootable.takes (.inl fits) {} _) refused

end BootM

end HartBoot
