import HartBoot.Boot
import HartBoot.ModeSwitch
import HartBoot.Pmp.Configure
import HartBoot.Proofs.Baseline
import HartBoot.Proofs.Survey

/-! # What actions write

Every action of a hart writes to few registers. Detection tries registers out, protection programs
the entries of its settings, and leaving machine mode sets up what comes after it. Whether an action
ends or stops, nothing else is rewritten.
-/

namespace HartBoot.HartM

variable {touched : Csr → Prop}

/-- The registers that detection tries out by writing to them. -/
def triedRegisters : List Csr :=
  .pmpcfg0 :: .pmpaddr0 :: .mhpmcounter3 :: .scounteren :: .mcounteren :: .mcountinhibit ::
    (List.finRange 64).map Csr.pmpaddr ++ (List.finRange 28).map fun index : Fin 28 =>
      Csr.machineCounter ⟨index + 4, CsrFile.laterCounter_lt index⟩

theorem writes_holds {csr : Csr} (hit : touched csr) (value : Word) :
    Writes touched (holds csr value) := by
  refine (Writes.probeRead csr).bind fun report => ?_
  cases report with
  | error trap => exact .pure false
  | ok previous =>
    refine .ite (.pure true) ((Writes.probeWrite hit value).bind fun answer => ?_)
    cases answer with
    | error trap => exact .pure false
    | ok _ => exact (Writes.swap hit previous).bind fun found => .pure (found == value)

theorem writes_writableBits? {csr : Csr} (hit : touched csr) :
    Writes touched (writableBits? csr) := by
  refine (Writes.probeRead csr).bind fun report => ?_
  cases report with
  | error trap => exact .pure none
  | ok previous =>
    refine (Writes.probeWrite hit Word.ones).bind fun answer => ?_
    cases answer with
    | error trap => exact .pure none
    | ok _ => exact (Writes.swap hit previous).bind fun found => .pure (some found)

theorem writes_isControllable {csr : Csr} (hit : touched csr) :
    Writes touched (isControllable csr) := by
  refine (Writes.probeRead csr).bind fun report => ?_
  cases report with
  | error trap => exact .pure false
  | ok content => exact (Writes.probeWrite hit content).bind fun answer => .pure answer.isOk

theorem writes_leadingRun {test : Csr → HartM Bool} {csrs : List Csr}
    (tested : ∀ csr ∈ csrs, Writes touched (test csr)) : Writes touched (leadingRun test csrs) := by
  induction csrs with
  | nil => exact .pure 0
  | cons csr rest ih =>
    refine (tested csr List.mem_cons_self).bind fun passed => .ite ?_ (.pure 0)
    have others := ih fun later member => tested later (List.mem_cons_of_mem csr member)
    exact others.bind fun count => .pure (count + 1)

section detection

variable (hit : ∀ csr ∈ triedRegisters, touched csr)

include hit

theorem writes_probeAddress : Writes touched probeAddress := by
  refine (Writes.probeWrite (hit .pmpcfg0 (by decide)) 0).bind fun configured => ?_
  cases configured with
  | error trap => exact .pure 0
  | ok _ =>
    refine (Writes.probeWrite (hit .pmpaddr0 (by decide)) addressPattern).bind fun addressed => ?_
    cases addressed with
    | error trap => exact .pure 0
    | ok _ => exact (Writes.probeRead .pmpaddr0).bind fun report => .pure _

theorem writes_detectPmp (record : FeatureRecord) : Writes touched (detectPmp record) := by
  refine (writes_probeAddress hit).bind fun pattern => .ite (.pure record) ?_
  refine (Writes.checked _).bind fun granularity => ?_
  refine (writes_leadingRun fun csr member => ?_).bind fun count => .pure _
  have tried : csr ∈ triedRegisters := by simp [triedRegisters, member]
  exact writes_holds (hit csr tried) pattern

theorem writes_detectCounters (record : FeatureRecord) :
    Writes touched (detectCounters record) := by
  have first : touched .mhpmcounter3 := hit .mhpmcounter3 (by decide)
  refine (writes_holds first 1).bind fun present => .ite ?_ (.pure record)
  refine (writes_writableBits? first).bind fun bits => ?_
  refine (writes_leadingRun fun csr member => ?_).bind fun count => .pure _
  have tried : csr ∈ triedRegisters := by simp [triedRegisters, member]
  exact writes_holds (hit csr tried) 1

theorem writes_detectOptional (record : FeatureRecord) :
    Writes touched (detectOptional record) := by
  refine (writes_isControllable (hit .scounteren (by decide))).bind fun readable => ?_
  refine (writes_isControllable (hit .mcounteren (by decide))).bind fun opened => ?_
  refine (writes_isControllable (hit .mcountinhibit (by decide))).bind fun stopped => ?_
  have clock (found : FeatureRecord) : Writes touched (do
      return addFeature found (← probeRead .time).isOk FeatureFlags.time) :=
    (Writes.probeRead .time).bind fun _ => .pure _
  refine .ite ?_ ?_
  · exact (Writes.probeRead .scountovf).bind fun _ => (Writes.pure _).bind clock
  · exact (Writes.pure _).bind clock

theorem writes_detect : Writes touched detect :=
  (writes_detectPmp hit {}).bind fun first => (writes_detectCounters hit first).bind
    (writes_detectOptional hit)

end detection

section protection

variable (hit : ∀ entry : Fin 64,
  touched (Csr.pmpaddr entry) ∧ touched (PmpSetting.configRegister entry))

include hit

theorem writes_apply (setting : PmpSetting) : Writes touched setting.apply := by
  refine (Writes.read _).bind fun _ => ?_
  exact (Writes.write (hit setting.entry).1 _).bind fun _ => .write (hit setting.entry).2 _

theorem writes_applySettings (settings : Except PmpError (List PmpSetting)) :
    Writes touched (applySettings settings) := by
  cases settings with
  | ok settings => exact (Writes.forM settings (writes_apply hit)).bind fun _ => .pure _
  | error error => exact .pure _

theorem writes_setRange (entry : Nat) (flags : PmpFlags) (start limit : Word) :
    Writes touched (setRange entry flags start limit) :=
  (Writes.checked _).bind fun _ => writes_applySettings hit _

theorem writes_protect (protection : Protection) (entry : Nat) :
    Writes touched (protect protection entry) := by
  cases protection with
  | napot base order flags => exact writes_applySettings hit _
  | tor start limit flags => exact writes_setRange hit entry flags start limit

end protection

/-- The registers that are rewritten on the way out of machine mode. -/
def handoverRegisters : List Csr :=
  [.mstatus, .mepc, .stvec, .sscratch, .sie, .satp, .utvec, .uscratch, .uie]

section handover

variable (hit : ∀ csr ∈ handoverRegisters, touched csr)

include hit

theorem writes_prepareMode (request : ValidSwitch) : Writes touched request.prepareMode := by
  obtain ⟨entry, mode, virtualized⟩ := request
  cases mode with
  | supervisor =>
    refine (Writes.write (hit .stvec (by decide)) _).bind fun _ => ?_
    refine (Writes.write (hit .sscratch (by decide)) _).bind fun _ => ?_
    refine (Writes.write (hit .sie (by decide)) _).bind fun _ => ?_
    exact .write (hit .satp (by decide)) _
  | user =>
    refine (Writes.hasExtension 'N').bind fun _ => .ite ?_ (.pure ())
    refine (Writes.write (hit .utvec (by decide)) _).bind fun _ => ?_
    refine (Writes.write (hit .uscratch (by decide)) _).bind fun _ => ?_
    exact .write (hit .uie (by decide)) _
  | machine => exact .pure ()

theorem writes_prepare (request : ValidSwitch) : Writes touched request.prepare := by
  refine (Writes.hasExtension 'H').bind fun _ => (Writes.read .mstatus).bind fun _ => ?_
  refine (Writes.write (hit .mstatus (by decide)) _).bind fun _ => ?_
  refine (Writes.read .mstatus).bind fun _ => .ite ?_ (.pure _)
  refine (Writes.write (hit .mepc (by decide)) _).bind fun _ => ?_
  exact (writes_prepareMode hit request).bind fun _ => .pure _

end handover

theorem writes_validate (request : ModeSwitch) : Writes touched request.validate := by
  rw [ModeSwitch.validate]
  cases PrivilegeMode.ofBits? request.mode with
  | none => exact .pure _
  | some mode =>
    have decided (implemented : Bool) : Writes touched (if implemented = true then
        Pure.pure (.ok { entry := request.entry, mode, virtualized := request.virtualized })
      else Pure.pure (.error (.missingExtension mode)) : HartM (Except SwitchError ValidSwitch)) :=
      .ite (.pure _) (.pure _)
    cases mode with
    | machine => exact (Writes.pure true).bind decided
    | supervisor => exact (Writes.hasExtension 'S').bind decided
    | user => exact (Writes.hasExtension 'U').bind decided

theorem writes_prepareSwitch (hit : ∀ csr ∈ handoverRegisters, touched csr)
    (request : ModeSwitch) : Writes touched request.prepare := by
  refine (writes_validate request).bind fun checked => ?_
  cases checked with
  | ok valid => exact writes_prepare hit valid
  | error error => exact .pure _

theorem writes_delegationText (before after : String) :
    Writes touched (delegationText before after) := by
  refine (Writes.hasExtension 'S').bind fun _ => .ite ?_ (.pure _)
  exact (Writes.read .mideleg).bind fun _ => (Writes.read .medeleg).bind fun _ => .pure _

theorem writes_enter (arg0 arg1 : Word) : Writes touched (enter arg0 arg1) := by
  intro hart
  unfold finalHart enter
  dsimp only
  cases hart.value? .mepc <;> exact .of_notes (.note hart _) rfl

theorem writes_wait : Writes touched wait := fun hart => .of_notes (.note hart _) rfl

end HartBoot.HartM
