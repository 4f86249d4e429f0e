import HartBoot.Proofs.Allotment
import HartBoot.Proofs.Booting
import Mathlib.Data.Fin.Basic

/-! # What configuration reports and what it writes

The report on a domain tells what became of its regions and how many entries they took, and it is
that of the entries handed out greedily. The hart writes to the registers of these entries, to the
address of each and then to its configuration, and makes no other access that leaves a mark. A
region that is skipped costs a line of diagnostics at most.
-/

namespace HartBoot

/-- The plan for regions takes the first entries, in order. -/
theorem map_entry_plan (record : FeatureRecord) (regions : List Region) :
    (plan record 0 regions).map PmpSetting.entry =
      (List.finRange 64).take (plan record 0 regions).length := by
  have numbers := entries_plan record 0 regions
  rw [← List.range_eq_range'] at numbers
  have bound := (length_plan_le record regions).trans (min_le_right record.pmpCount.toNat 64)
  apply List.map_injective_iff.mpr Fin.val_injective
  rw [List.map_map, List.map_take, List.map_coe_finRange_eq_range, List.take_range,
    min_eq_left bound]
  exact numbers

namespace BootM

variable {file : CsrFile}

/-- Configuration programs the plan for the regions of the domain and reports the entries that are
handed out greedily, wherever protection entries accept writes. -/
theorem gives_configure_allot (writable : file.AcceptsPmp) {id : Word}
    (numbered : file.value? .mhartid = some id) (record : FeatureRecord) (domain : Domain) :
    Gives (configure record domain) file
      (.ofAllotment (allot record (min record.pmpCount.toNat 64) domain.regions))
      (file.programAll (plan record 0 domain.regions)) := by
  rw [PmpReport.ofAllotment_allot]
  exact gives_configure_of_admits (writable.admits _) numbered

/-- Whatever configuration reports is the report on the entries that are handed out greedily. -/
theorem report_of_configure {machine left : Machine} (writable : machine.hart.csrs.AcceptsPmp)
    {id : Word} (numbered : machine.hart.csrs.value? .mhartid = some id) {record : FeatureRecord}
    {domain : Domain} {report : PmpReport} (ended : configure record domain machine = .ok report left) :
    report = .ofAllotment (allot record (min record.pmpCount.toNat 64) domain.regions) := by
  obtain ⟨final, given, -⟩ := gives_configure_allot writable numbered record domain machine rfl
  rw [ended] at given
  exact (EStateM.Result.ok.inj given).1

/-- On a hart whose protection entries accept writes, configuration always succeeds. Its report is
that of the entries handed out greedily, of which there are as many as the record counts and the
hart can address: every region is either configured or skipped, and the configured ones take the
entries that are counted, no more than there are. The hart writes to the registers of these entries
in order, and makes no other access with an effect. What is done about a skipped region changes
nothing but the terminal. -/
theorem configure_accounts (record : FeatureRecord) (domain : Domain) (machine : Machine)
    (writable : ∀ entry : Fin 64, machine.hart.csrs.accepts (Csr.pmpaddr entry) = true ∧
      machine.hart.csrs.accepts (PmpSetting.configRegister entry) = true)
    (numbered : ∃ id, machine.hart.csrs.value? .mhartid = some id) :
    let allotment := allot record (min record.pmpCount.toNat 64) domain.regions
    ∃ report after, configure record domain machine = .ok report after ∧
      report = .ofAllotment allotment ∧
      report.configured + report.skipped = domain.regions.length ∧
      placed record 0 domain.regions = (allotment.filter (·.2)).map Prod.fst ∧
      report.slots = ((placed record 0 domain.regions).map Region.entries).sum ∧
      report.slots ≤ min record.pmpCount.toNat 64 ∧
      (∃ steps, machine.hart.Logs steps after.hart ∧
        after.hart.trace.toList =
          machine.hart.trace.toList ++ steps.map (fun step => .write step.1 step.2) ∧
        steps.map Prod.fst =
          ((List.finRange 64).take report.slots).flatMap PmpSetting.registers) ∧
      ∀ verdict ∈ Verdict.ofRegions record 0 domain.regions, verdict.region? = none →
        ∀ machine : Machine, ∃ terminal, carryOut domain.name verdict machine =
          .ok () { machine with shared := { machine.shared with terminal } } := by
  intro allotment
  obtain ⟨id, numbered⟩ := numbered
  have admits : machine.hart.csrs.Admits (plan record 0 domain.regions) :=
    fun setting _ => writable setting.entry
  obtain ⟨terminal, ran⟩ := sets_configure admits numbered machine rfl admits.takes
  have counted := PmpReport.ofAllotment_allot record domain.regions
  rw [← counted] at ran
  have granted := filter_allot record 0 domain.regions
  rw [Nat.sub_zero] at granted
  have slots : (PmpReport.ofAllotment allotment).slots = (plan record 0 domain.regions).length :=
    congrArg PmpReport.slots counted
  obtain ⟨logged, traced⟩ := machine.hart.logs_planPresets (plan record 0 domain.regions)
  refine ⟨_, _, ran, rfl, ?_, granted.symm, ?_, ?_, ⟨_, logged, traced, ?_⟩, ?_⟩
  · rw [PmpReport.configured_add_skipped, length_allot]
  · rw [slots, sum_entries_placed]
  · exact PmpReport.slots_allot_le record _ domain.regions
  · rw [List.map_map, slots, ← map_entry_plan]
    exact machine.hart.csrs.map_csr_planPresets _
  · exact fun verdict _ skipped machine => carryOut_of_skipped skipped domain.name machine

/-- Of four entries, the first goes to a block and the next two to a range. The range after that finds
too few of them, so the last entry goes to the block of all memory. Blocks that are too small or too
large go without, and so does the block that comes last. -/
theorem configure_accounts_mixed :
    let machine : Machine := ⟨Hart.numbered.withPmp (Word.lowMask 54), .blank, {}⟩
    let record : FeatureRecord := { pmpCount := 4, pmpGran := 16, pmpAddrBits := 54 }
    let domain : Domain := { name := "mixed", bootHart := 0, regions := [
      { base := 0x80000000, extent := .napot 12, flags := ⟨0b101⟩ },
      { base := 0x90000000, extent := .napot 3, flags := ⟨0b001⟩ },
      { base := 0x80001000, extent := .tor 0x1804, flags := ⟨0b011⟩ },
      { base := 0, extent := .napot 65, flags := ⟨0b111⟩ },
      { base := 0x80004000, extent := .tor 0x1000, flags := ⟨0b011⟩ },
      { base := 0, extent := .napot 64, flags := ⟨0b111⟩ },
      { base := 0x10000000, extent := .napot 8, flags := ⟨0b011⟩ }] }
    ((∀ entry : Fin 64, machine.hart.csrs.accepts (Csr.pmpaddr entry) = true ∧
        machine.hart.csrs.accepts (PmpSetting.configRegister entry) = true) ∧
      ∃ id, machine.hart.csrs.value? .mhartid = some id) ∧
    ∃ after steps, configure record domain machine =
        .ok { slots := 4, configured := 3, skipped := 4 } after ∧
      machine.hart.Logs steps after.hart ∧
      steps.map Prod.fst = [.pmpaddr 0, .pmpcfg 0, .pmpaddr 1, .pmpcfg 0, .pmpaddr 2, .pmpcfg 0,
        .pmpaddr 3, .pmpcfg 0] := by
  intro machine record domain
  have equipped := Hart.hasPmp_withPmp Hart.numbered (Word.lowMask 54)
  have writable : ∀ entry : Fin 64, machine.hart.csrs.accepts (Csr.pmpaddr entry) = true ∧
      machine.hart.csrs.accepts (PmpSetting.configRegister entry) = true :=
    fun entry => ⟨equipped.accepts_address entry, equipped.accepts_config entry⟩
  have numbered : ∃ id, machine.hart.csrs.value? .mhartid = some id :=
    ⟨0, Hart.value?_numbered_withPmp (Word.lowMask 54)⟩
  refine ⟨⟨writable, numbered⟩, ?_⟩
  obtain ⟨report, after, ran, counted, -, -, -, -, ⟨steps, logged, -, named⟩, -⟩ :=
    configure_accounts record domain machine writable numbered
  have shown : report = { slots := 4, configured := 3, skipped := 4 } :=
    counted.trans (by decide +kernel)
  subst shown
  exact ⟨after, steps, ran, logged, named.trans (by decide +kernel)⟩

end BootM

end HartBoot
