import HartBoot.Proofs.Detection
import HartBoot.Proofs.Enforcement
import HartBoot.Proofs.Initialization

/-! # What a restart leaves of earlier domains

Boot software initializes a hart and protects the memory of a domain, possibly many times over. The
entries of such a hart stay in working order throughout. Initialization clears the octets of the
first eight entries and no others, and configuration replaces the octets of the entries in its
plan. What an entry past the first eight holds is therefore decided by the last plan that reached
it, so a shorter domain is enforced after a restart exactly when the longer ones before it left
nothing active past its end.
-/

namespace HartBoot

/-- A call that boot software makes on a hart. -/
inductive BootCall where
  | init (platform : Platform) (cold : Bool)
  | configure (record : FeatureRecord) (domain : Domain)

namespace BootCall

/-- The machine after a call, whether the call ended or the hart stopped in it. -/
def run (machine : Machine) : BootCall → Machine
  | .init platform cold => BootM.finalMachine (BootM.init platform cold) machine
  | .configure record domain => BootM.finalMachine (BootM.configure record domain) machine

/-- The machine after calls in turn. -/
def runAll (machine : Machine) (calls : List BootCall) : Machine := calls.foldl run machine

/-- The octet of an entry past the first eight after a call. -/
def leave (entry : Fin 64) (octet : Byte) : BootCall → Byte
  | .init _ _ => octet
  | .configure record domain =>
    ((plan record 0 domain.regions).find? (·.entry == entry)).elim octet (·.config.bits)

/-- The octet that calls leave in an entry past the first eight. -/
def leftover (entry : Fin 64) (octet : Byte) (calls : List BootCall) : Byte :=
  calls.foldl (leave entry) octet

end BootCall

namespace CsrFile

variable {bits : Word} {file before after : CsrFile}

/-- The octet of an entry depends on its configuration register alone. -/
theorem octet_congr {entry : Fin 64}
    (same : after[PmpSetting.configRegister entry]? = before[PmpSetting.configRegister entry]?) :
    (after.content entry).1 = (before.content entry).1 := by
  simp only [content, value?, same]

theorem octet_of_evolves_belowPmp (evolves : Evolves HartM.BelowPmp before after)
    (entry : Fin 64) : (after.content entry).1 = (before.content entry).1 := by
  apply octet_congr
  apply evolves.frame
  rw [HartM.BelowPmp, PmpSetting.configRegister, Csr.number_pmpcfg]
  omega

/-- Probing clears the octets of the first eight entries. -/
theorem octet_probed (equipped : file.HasPmp bits) (entry : Fin 64) :
    (file.probed.content entry).1 = if entry.val < 8 then 0 else (file.content entry).1 := by
  have configurable : file.accepts .pmpcfg0 = true := equipped.accepts_config 0
  have apart : PmpSetting.configRegister entry ≠ .pmpaddr0 := by
    rw [← Csr.pmpaddr_zero]
    exact (Csr.pmpaddr_ne_pmpcfg _ _).symm
  have first : PmpSetting.configRegister 0 = .pmpcfg0 := rfl
  rw [probed, if_pos configurable]
  split
  next low =>
    have shared : PmpSetting.configRegister entry = PmpSetting.configRegister 0 := by
      rw [PmpSetting.configRegister_inj]
      exact Nat.div_eq_of_lt low
    have blank := equipped.value?_write_config 0 0
    rw [content, value?_write_of_ne _ apart, shared, ← first, blank, Option.getD_some]
    simp only [PmpSetting.octetOf, BitVec.ofNat_eq_ofNat, BitVec.zero_ushiftRight]
    rfl
  next high =>
    apply octet_congr
    rw [getElem?_write_of_ne _ apart, getElem?_write_of_ne]
    rw [← first, Ne, PmpSetting.configRegister_inj]
    exact fun zero => high (Nat.lt_of_div_eq_zero (by decide) zero)

/-- What a plan leaves in an entry. -/
theorem octet_programAll (equipped : file.HasPmp bits) (record : FeatureRecord)
    (regions : List Region) (entry : Fin 64) :
    ((file.programAll (plan record 0 regions)).content entry).1 =
      ((plan record 0 regions).find? (·.entry == entry)).elim (file.content entry).1
        (·.config.bits) := by
  cases found : (plan record 0 regions).find? (·.entry == entry) with
  | none =>
    rw [content_programAll_of_ne file]
    · rfl
    · intro setting member same
      exact List.find?_eq_none.mp found setting member (beq_iff_eq.mpr same)
  | some setting =>
    have same := List.find?_some found
    obtain rfl : setting.entry = entry := beq_iff_eq.mp same
    rw [content_programAll_of_mem equipped (nodup_entries_plan record 0 regions)
      (List.mem_of_find?_eq_some found)]
    rfl

end CsrFile

namespace BootM

variable {bits : Word} {machine middle : Machine}

/-- What a hart does by itself leaves its scratch area and the shared memory alone. -/
theorem memory_of_onHart {α : Type} {action : HartM α} {result : α}
    (ran : onHart action machine = .ok result middle) :
    middle.area = machine.area ∧ middle.shared = machine.shared := by
  obtain ⟨hart, area, shared⟩ := machine
  simp only [onHart] at ran
  split at ran
  · obtain ⟨-, rfl⟩ := EStateM.Result.ok.inj ran
    exact ⟨rfl, rfl⟩
  · cases ran

/-- The hart of a ready machine tells all of its entries. -/
theorem survey_ready (ready : machine.Ready Word.ones) :
    Word.trailingZeros machine.hart.csrs.pattern < 62 ∧
      machine.hart.csrs.survey.pmpCount = 64 ∧ machine.hart.csrs.survey.pmpGran = 4 ∧
      machine.hart.csrs.survey.pmpAddrBits.toNat = 54 :=
  ready.equipped.survey_eq (by decide) (by decide) rfl

/-- The baseline leaves the octets of all entries alone, reached or not. -/
theorem finalMachine_restore (record : FeatureRecord) (platform : Platform) (machine : Machine) :
    CsrFile.Evolves HartM.BelowPmp machine.hart.csrs
        (finalMachine (onHart (HartM.restore record platform)) machine).hart.csrs ∧
      (finalMachine (onHart (HartM.restore record platform)) machine).hart.outages =
        machine.hart.outages := by
  rw [hart_finalMachine_onHart]
  have reaches := HartM.writes_restore record platform machine.hart
  exact ⟨reaches.evolves, reaches.outages_eq⟩

/-- Initialization is refused with nothing changed, or it clears the octets of the first eight
entries. It leaves the others alone. -/
theorem finalMachine_init (ready : machine.Ready Word.ones) (platform : Platform) (cold : Bool) :
    CsrFile.Evolves (fun _ => True) machine.hart.csrs
        (finalMachine (init platform cold) machine).hart.csrs ∧
      (finalMachine (init platform cold) machine).hart.outages = [] ∧
      ∀ entry : Fin 64, 8 ≤ entry.val →
        ((finalMachine (init platform cold) machine).hart.csrs.content entry).1 =
          (machine.hart.csrs.content entry).1 := by
  obtain ⟨id, numbered⟩ := ready.numbered
  obtain ⟨low, -⟩ := survey_ready ready
  rcases init_cases platform cold ready.steady (.inr low) numbered with
    ⟨error, refused⟩ | ⟨offset, middle, restores, registers, quiet, -, -⟩
  · have same : finalMachine (init platform cold) machine = machine := by
      rw [finalMachine, refused]
    rw [same]
    exact ⟨.refl _ _, ready.steady, fun _ _ => rfl⟩
  · have same : finalMachine (init platform cold) machine =
        finalMachine (onHart (HartM.restore machine.hart.csrs.survey platform)) middle := by
      rw [finalMachine, restores, finalMachine]
    obtain ⟨rest, kept⟩ := finalMachine_restore machine.hart.csrs.survey platform middle
    have probed := machine.hart.csrs.evolves_probed
    rw [← registers] at probed
    rw [same]
    refine ⟨(probed.mono fun _ _ => trivial).trans (rest.mono fun _ _ => trivial),
      kept.trans quiet, fun entry past => ?_⟩
    rw [CsrFile.octet_of_evolves_belowPmp rest, registers, CsrFile.octet_probed ready.equipped,
      if_neg (by omega)]

/-- After a successful initialization the survey is on record, and the octets of the first eight
entries are clear. -/
theorem init_succeeded (ready : machine.Ready Word.ones) {platform : Platform} {cold : Bool}
    (succeeded : init platform cold machine = .ok (.ok ()) middle) :
    middle.shared.features middle.area = .ok machine.hart.csrs.survey ∧
      ∀ entry : Fin 64, (middle.hart.csrs.content entry).1 =
        if entry.val < 8 then 0 else (machine.hart.csrs.content entry).1 := by
  obtain ⟨id, numbered⟩ := ready.numbered
  obtain ⟨low, -⟩ := survey_ready ready
  rcases init_cases platform cold ready.steady (.inr low) numbered with
    ⟨error, refused⟩ | ⟨offset, probed, restores, registers, quiet, place, stored⟩
  · rw [refused] at succeeded
    cases succeeded
  · rw [restores] at succeeded
    have final : finalMachine (onHart (HartM.restore machine.hart.csrs.survey platform)) probed =
        middle := by
      rw [finalMachine, succeeded]
    obtain ⟨rest, -⟩ := finalMachine_restore machine.hart.csrs.survey platform probed
    rw [final] at rest
    obtain ⟨area, shared⟩ := memory_of_onHart succeeded
    refine ⟨?_, fun entry => ?_⟩
    · rw [Shared.features, area, shared, place]
      exact congrArg Except.ok stored
    · rw [CsrFile.octet_of_evolves_belowPmp rest, registers, CsrFile.octet_probed ready.equipped]

/-- Configuration leaves the plan in the entries, and the rest of the machine as it was. -/
theorem finalMachine_configure (ready : machine.Ready bits) (record : FeatureRecord)
    (domain : Domain) :
    (finalMachine (configure record domain) machine).hart.csrs =
        machine.hart.csrs.programAll (plan record 0 domain.regions) ∧
      (finalMachine (configure record domain) machine).hart.outages = [] ∧
      (finalMachine (configure record domain) machine).shared.featureOffset =
        machine.shared.featureOffset := by
  obtain ⟨id, numbered⟩ := ready.numbered
  obtain ⟨final, ran, registers, quiet, -, place⟩ :=
    gives_configure ready.equipped numbered record domain machine rfl
  have same : finalMachine (configure record domain) machine = final := by
    rw [finalMachine, ran]
  rw [same]
  exact ⟨registers, quiet.trans ready.steady, place⟩

end BootM

namespace BootCall

variable {machine : Machine}

/-- A call changes registers by accepted writes only, and leaves what its kind leaves past the first
eight entries. -/
theorem run_evolves (ready : machine.Ready Word.ones) (call : BootCall) :
    CsrFile.Evolves (fun _ => True) machine.hart.csrs (run machine call).hart.csrs ∧
      (run machine call).hart.outages = [] ∧
      ∀ entry : Fin 64, 8 ≤ entry.val → ((run machine call).hart.csrs.content entry).1 =
        leave entry (machine.hart.csrs.content entry).1 call := by
  cases call with
  | init platform cold => exact BootM.finalMachine_init ready platform cold
  | configure record domain =>
    obtain ⟨registers, quiet, -⟩ := BootM.finalMachine_configure ready record domain
    rw [run, registers]
    refine ⟨(CsrFile.evolves_programAll _ _).mono fun _ _ => trivial, quiet, fun entry _ => ?_⟩
    exact CsrFile.octet_programAll ready.equipped record domain.regions entry

/-- So do any calls, and the last plan that reached an entry past the first eight decides it. -/
theorem runAll_evolves (ready : machine.Ready Word.ones) (calls : List BootCall) :
    CsrFile.Evolves (fun _ => True) machine.hart.csrs (runAll machine calls).hart.csrs ∧
      (runAll machine calls).hart.outages = [] ∧
      ∀ entry : Fin 64, 8 ≤ entry.val → ((runAll machine calls).hart.csrs.content entry).1 =
        leftover entry (machine.hart.csrs.content entry).1 calls := by
  induction calls generalizing machine with
  | nil => exact ⟨.refl _ _, ready.steady, fun _ _ => rfl⟩
  | cons call rest ih =>
    obtain ⟨step, quiet, octets⟩ := run_evolves ready call
    obtain ⟨steps, still, later⟩ := ih (ready.evolve step quiet)
    refine ⟨step.trans steps, still, fun entry past => ?_⟩
    rw [runAll, List.foldl_cons, ← runAll, later entry past, octets entry past, leftover, leftover,
      List.foldl_cons]

end BootCall

namespace BootM

variable {machine middle : Machine} {platform : Platform} {cold : Bool}

/-- After any calls, a successful initialization and configuration with the stored record, each
entry holds what the plan puts there. Without a setting, it is clear if it is one of the first
eight, and else holds what the calls before left in it. -/
theorem restart_octets (ready : machine.Ready Word.ones) (history : List BootCall)
    (succeeded : init platform cold (BootCall.runAll machine history) = .ok (.ok ()) middle)
    (domain : Domain) :
    ∃ record report final, middle.shared.features middle.area = .ok record ∧
      (record.pmpCount = 64 ∧ record.pmpGran = 4) ∧
      configure record domain middle = .ok report final ∧
      final.hart.csrs.Holds Word.ones (plan record 0 domain.regions) ∧
      ∀ entry : Fin 64, (final.hart.csrs.content entry).1 =
        ((plan record 0 domain.regions).find? (·.entry == entry)).elim
          (if entry.val < 8 then 0
            else BootCall.leftover entry (machine.hart.csrs.content entry).1 history)
          (·.config.bits) := by
  obtain ⟨evolves, quiet, past⟩ := BootCall.runAll_evolves ready history
  have before := ready.evolve evolves quiet
  obtain ⟨stored, cleared⟩ := init_succeeded before succeeded
  obtain ⟨-, count, unit, -⟩ := survey_ready before
  obtain ⟨restarted, steady, -⟩ := finalMachine_init before platform cold
  rw [finalMachine, succeeded] at restarted steady
  have kept : middle.Ready Word.ones := before.evolve restarted steady
  obtain ⟨id, numbered⟩ := kept.numbered
  obtain ⟨final, ran, registers, -⟩ := gives_configure kept.equipped numbered
    (BootCall.runAll machine history).hart.csrs.survey domain middle rfl
  refine ⟨_, _, final, stored, ⟨count, unit⟩, ran, ?_, fun entry => ?_⟩
  · rw [registers]
    exact kept.equipped.holds_plan _ domain.regions
  · rw [registers, CsrFile.octet_programAll kept.equipped, cleared]
    split
    next => rfl
    next high => rw [past entry (by omega)]

/-- After any calls on a ready machine, a successful initialization and configuration with the
stored record, the active entries are those that the last plan made active, and addresses are
decided by the last domain alone, if and only if no active octet is left past the first eight
entries and past the end of the last plan. -/
theorem restart_overwrites_iff (ready : machine.Ready Word.ones) (history : List BootCall)
    (succeeded : init platform cold (BootCall.runAll machine history) = .ok (.ok ()) middle)
    (domain : Domain) :
    ∃ record report final, middle.shared.features middle.area = .ok record ∧
      record.pmpCount = 64 ∧ configure record domain middle = .ok report final ∧
      (((∀ entry : Fin 64, entry.val < record.pmpCount.toNat →
          (MatchMode.ofOctet (final.hart.reading entry).octet ≠ .off ↔
            ∃ setting ∈ plan record 0 domain.regions, setting.entry = entry ∧
              MatchMode.ofOctet setting.config.bits ≠ .off)) ∧
        ∀ byte : Word, final.hart.lookup? byte =
          ((placed record 0 domain.regions).find? (·.guards 4 byte.toNat)).map
            (Protection.permissions ·.flags)) ↔
      ∀ entry : Fin 64, 8 ≤ entry.val → (plan record 0 domain.regions).length ≤ entry.val →
        MatchMode.ofOctet
          (BootCall.leftover entry (machine.hart.csrs.content entry).1 history) = .off) := by
  obtain ⟨record, report, final, stored, ⟨count, unit⟩, ran, held, octets⟩ :=
    restart_octets ready history succeeded domain
  refine ⟨record, report, final, stored, count, ran, ?_⟩
  have octet (entry : Fin 64) :
      (final.hart.reading entry).octet = (final.hart.csrs.content entry).1 := by
    rw [Hart.reading_eq]
  constructor
  · rintro ⟨active, -⟩ entry high past
    by_contra matching
    have reading : (final.hart.reading entry).octet =
        BootCall.leftover entry (machine.hart.csrs.content entry).1 history := by
      rw [octet, octets, find?_plan_of_past past, Option.elim_none, if_neg (by omega)]
    have counted : entry.val < record.pmpCount.toNat := by
      rw [count]
      exact entry.isLt
    obtain ⟨setting, member, same, -⟩ := (active entry counted).mp (reading ▸ matching)
    have before := (exists_setting_iff record domain.regions entry).mp ⟨setting, member, same⟩
    omega
  · intro quiet
    have idle (entry : Fin 64) (past : (plan record 0 domain.regions).length ≤ entry.val) :
        MatchMode.ofOctet (final.hart.csrs.content entry).1 = .off := by
      rw [octets, find?_plan_of_past past, Option.elim_none]
      split
      next => rfl
      next high => exact quiet entry (by omega) past
    refine ⟨fun entry _ => ?_, fun byte => ?_⟩
    · rw [octet]
      constructor
      · intro matching
        have before : entry.val < (plan record 0 domain.regions).length := by
          by_contra past
          exact matching (idle entry (by omega))
        obtain ⟨setting, member, rfl⟩ := (exists_setting_iff record domain.regions entry).mpr before
        rw [held setting member] at matching
        exact ⟨setting, member, rfl, matching⟩
      · rintro ⟨setting, member, rfl, matching⟩
        rwa [held setting member]
    · have power : record.pmpGran = 0 ∨ ∃ exponent, record.pmpGran.toNat = 2 ^ exponent :=
        .inr ⟨2, by rw [unit]; rfl⟩
      have words : max 4 record.pmpGran.toNat = 4 := by rw [unit]; rfl
      rw [Hart.lookup?_eq_answer? (entries_plan record 0 domain.regions) idle,
        Hart.answer?_plan power held, words]

/-- A bare hart is initialized whenever there is a place for its record. -/
theorem init_bare (ready : machine.Ready Word.ones) (bare : machine.hart.csrs.Bare)
    (platform : Platform) {cold : Bool} {shared : Shared} {offset : Offset FeatureRecord}
    (given : featureOffset cold machine = .ok (.ok offset) { machine with shared })
    (place : shared.featureOffset = some offset) :
    ∃ middle, init platform cold machine = .ok (.ok ()) middle := by
  obtain ⟨id, numbered⟩ := ready.numbered
  obtain ⟨low, -⟩ := survey_ready ready
  obtain ⟨probed, restores, registers, -⟩ :=
    init_of_place platform given place ready.steady (.inr low) numbered
  have described := machine.hart.csrs.describes_survey (.inr low)
  have unopened := described.mcounteren.trans bare.unopened
  have unstopped := described.mcountinhibit.trans bare.unstopped
  have left : probed.hart.csrs.Bare := by
    rw [registers]
    exact bare.evolve machine.hart.csrs.evolves_probed
  obtain ⟨middle, ran, -⟩ := Gives.onHart
    (fun _ => HartM.gives_restore_bare left unopened unstopped platform) probed rfl
  exact ⟨middle, restores.trans ran⟩

/-- A bare hart that was started and configured is restarted warm. -/
theorem restart_bare (ready : machine.Ready Word.ones) (bare : machine.hart.csrs.Bare)
    {platform : Platform} {cold : Bool}
    (started : init platform cold machine = .ok (.ok ()) middle) (record : FeatureRecord)
    (domain : Domain) :
    ∃ restarted, init platform false (BootCall.runAll machine
      [.init platform cold, .configure record domain]) = .ok (.ok ()) restarted := by
  obtain ⟨stored, -⟩ := init_succeeded ready started
  obtain ⟨evolves, steady, -⟩ := finalMachine_init ready platform cold
  rw [finalMachine, started] at evolves steady
  have kept : middle.Ready Word.ones := ready.evolve evolves steady
  obtain ⟨registers, quiet, same⟩ := finalMachine_configure kept record domain
  have programmed := middle.hart.csrs.evolves_programAll (plan record 0 domain.regions)
  rw [← registers] at programmed
  have calls : BootCall.runAll machine [.init platform cold, .configure record domain] =
      finalMachine (configure record domain) middle := by
    simp only [BootCall.runAll, List.foldl_cons, List.foldl_nil, BootCall.run]
    rw [finalMachine, finalMachine, started, finalMachine]
  rw [calls]
  obtain ⟨offset, place⟩ : ∃ offset, middle.shared.featureOffset = some offset := by
    unfold Shared.features at stored
    split at stored
    next offset found => exact ⟨offset, found⟩
    next => cases stored
  have warm : (finalMachine (configure record domain) middle).shared.featureOffset = some offset :=
    same.trans place
  apply init_bare (kept.evolve programmed quiet) ((bare.evolve evolves).evolve programmed) platform
    _ warm
  exact featureOffset_of_reserved warm

end BootM

/-- A machine with a bare hart. -/
def Machine.bare : Machine :=
  let registers := (Hart.numbered.implementReadOnly .misa Misa.bare).implement .mstatus 0 Word.ones
  ⟨(registers.implement .mie 0 Word.ones).withPmp Word.ones, .blank, {}⟩

/-- A domain of blocks of four kilobytes. -/
def Domain.blocks (count : Nat) : Domain where
  name := "blocks"
  bootHart := 1
  regions := (List.range count).map fun index => {
    base := 0x80000000 + BitVec.ofNat 64 (index * 0x1000), extent := .napot 12, flags := ⟨0b111⟩ }

namespace BootM

private theorem ready_bareMachine : Machine.bare.Ready Word.ones where
  equipped := Hart.hasPmp_withPmp _ Word.ones
  numbered := by
    refine ⟨0, ?_⟩
    rw [CsrFile.value?, Machine.bare, Hart.getElem?_withPmp_of_outside _ _ (.inr (by decide))]
    decide
  steady := by decide +kernel

private theorem bare_bareMachine : Machine.bare.hart.csrs.Bare := by
  have outside {csr : Csr} (low : csr.number.toNat < 0x3a0) :=
    Hart.getElem?_withPmp_of_outside ((Hart.numbered.implementReadOnly .misa Misa.bare).implement
      .mstatus 0 Word.ones |>.implement .mie 0 Word.ones) Word.ones (.inl low)
  constructor
  · rw [Machine.bare, outside (by decide)]
    decide
  all_goals
    rw [CsrFile.accepts, Machine.bare, outside (by decide)]
    decide

private theorem octet_bareMachine (entry : Fin 64) :
    (Machine.bare.hart.csrs.content entry).1 = 0 := by
  rw [CsrFile.content, Machine.bare, Hart.value?_withPmp_config]
  simp only [Option.getD_some, PmpSetting.octetOf, BitVec.ofNat_eq_ofNat, BitVec.zero_ushiftRight]
  rfl

private theorem started_bareMachine :
    ∃ middle, init {} true Machine.bare = .ok (.ok ()) middle := by
  rcases featureOffset_cases true Machine.bare with ⟨error, refused⟩ | ⟨offset, shared, given, place⟩
  · have answer : (match featureOffset true Machine.bare with
        | .ok (.ok _) _ => true
        | _ => false) = true := by decide +kernel
    rw [refused] at answer
    cases answer
  · exact init_bare ready_bareMachine bare_bareMachine {} given place

private theorem restarted_bareMachine (domain : Domain) :
    ∃ middle, init {} false (BootCall.runAll Machine.bare [.init {} true,
      .configure { pmpCount := 64, pmpGran := 4, pmpAddrBits := 54 } domain]) =
        .ok (.ok ()) middle := by
  obtain ⟨first, started⟩ := started_bareMachine
  exact restart_bare ready_bareMachine bare_bareMachine started _ domain

theorem restart_overwrites_iff_bareMachine :
    let history : List BootCall := [.init {} true,
      .configure { pmpCount := 64, pmpGran := 4, pmpAddrBits := 54 } (Domain.blocks 6)]
    Machine.bare.Ready Word.ones ∧ ∃ middle,
      init {} false (BootCall.runAll Machine.bare history) = .ok (.ok ()) middle ∧
      ∃ record report final, middle.shared.features middle.area = .ok record ∧
        record.pmpCount = 64 ∧ configure record (Domain.blocks 1) middle = .ok report final ∧
        (∀ entry : Fin 64, entry.val < record.pmpCount.toNat →
          (MatchMode.ofOctet (final.hart.reading entry).octet ≠ .off ↔
            ∃ setting ∈ plan record 0 (Domain.blocks 1).regions, setting.entry = entry ∧
              MatchMode.ofOctet setting.config.bits ≠ .off)) := by
  intro history
  obtain ⟨middle, succeeded⟩ := restarted_bareMachine (Domain.blocks 6)
  obtain ⟨record, report, final, stored, count, ran, overwritten⟩ :=
    restart_overwrites_iff ready_bareMachine history succeeded (Domain.blocks 1)
  have quiet (entry : Fin 64) (high : 8 ≤ entry.val) : MatchMode.ofOctet
      (BootCall.leftover entry (Machine.bare.hart.csrs.content entry).1 history) = .off := by
    have six : (plan { pmpCount := 64, pmpGran := 4, pmpAddrBits := 54 } 0
        (Domain.blocks 6).regions).length = 6 := by decide +kernel
    simp only [history, BootCall.leftover, List.foldl_cons, List.foldl_nil, BootCall.leave]
    rw [find?_plan_of_past (by omega), octet_bareMachine]
    rfl
  exact ⟨ready_bareMachine, middle, succeeded, record, report, final, stored, count, ran,
    (overwritten.mpr fun entry high _ => quiet entry high).1⟩

/-- After ten blocks, a restart with one block leaves the ninth entry active. -/
theorem restart_keeps_old_entry :
    let history : List BootCall := [.init {} true,
      .configure { pmpCount := 64, pmpGran := 4, pmpAddrBits := 54 } (Domain.blocks 10)]
    ∃ middle, init {} false (BootCall.runAll Machine.bare history) = .ok (.ok ()) middle ∧
      ∃ record report final, middle.shared.features middle.area = .ok record ∧
        configure record (Domain.blocks 1) middle = .ok report final ∧
        ¬∀ entry : Fin 64, entry.val < record.pmpCount.toNat →
          (MatchMode.ofOctet (final.hart.reading entry).octet ≠ .off ↔
            ∃ setting ∈ plan record 0 (Domain.blocks 1).regions, setting.entry = entry ∧
              MatchMode.ofOctet setting.config.bits ≠ .off) := by
  intro history
  obtain ⟨middle, succeeded⟩ := restarted_bareMachine (Domain.blocks 10)
  obtain ⟨record, report, final, stored, ⟨count, unit⟩, ran, held, octets⟩ :=
    restart_octets ready_bareMachine history succeeded (Domain.blocks 1)
  refine ⟨middle, succeeded, record, report, final, stored, ran, fun active => ?_⟩
  have short : (plan record 0 (Domain.blocks 1).regions).length ≤ 1 := by
    rcases plan_cons record 0 _ [] with ⟨none, -⟩ | ⟨same, -⟩ | ⟨settings, placement, more, -⟩
    · exact none ▸ Nat.zero_le 1
    · exact same ▸ Nat.zero_le 1
    · rcases placement.kinds with ⟨order, inRange, -, -, -, -, -, rfl⟩ | ⟨size, inRange, range, -⟩
      · exact more ▸ Nat.le_refl 1
      · cases range
  have octet : (final.hart.reading 8).octet = 0x1f := by
    rw [Hart.reading_eq]
    dsimp only
    rw [octets, find?_plan_of_past (by omega), octet_bareMachine]
    decide +kernel
  have counted : (8 : Fin 64).val < record.pmpCount.toNat := by
    rw [count]
    decide
  obtain ⟨setting, member, same, -⟩ := (active 8 counted).mp (by rw [octet]; decide)
  have before := (exists_setting_iff record (Domain.blocks 1).regions 8).mp ⟨setting, member, same⟩
  have eight : (8 : Fin 64).val = 8 := rfl
  omega

end BootM

end HartBoot
