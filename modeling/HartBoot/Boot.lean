import HartBoot.Delegation
import HartBoot.Features.Detect
import HartBoot.Features.Text
import HartBoot.Machine
import HartBoot.Status

/-! # Initializing a hart

A hart detects its features on every boot and keeps their record in its scratch area. The first
cold boot reserves the place of the record, and a warm boot before that is refused. From the
record, the hart is brought to a baseline: nothing that earlier stages left in its status survives
but the state of the extension units, counters are opened and stopped, interrupts and paging are
off, the floating-point registers are cleared, and traps are delegated.
-/

namespace HartBoot

/-- The reasons for which a hart is not initialized. -/
inductive HartError where
  /-- There is no scratch memory left for the feature record. -/
  | noMemory
  /-- A warm boot came before any cold boot. -/
  | uninitialized
  /-- The floating-point unit cannot be switched on. -/
  | invalidState
deriving DecidableEq, Repr

/-- The sentence reporting why a hart is not initialized. -/
def HartError.message : HartError → String
  | .noMemory => "out of scratch space"
  | .uninitialized => "hart core not initialized"
  | .invalidState => "invalid hart state"

namespace HartM

/-- Counters that supervisor mode may read: cycles, time and retired instructions. -/
def openCounters : Word := 0b111

/-- Counters that are stopped until supervisor mode starts them: the programmable ones. -/
def stoppedCounters : Word := 0xfffffff8

/-- Whether the hart has a floating-point unit. -/
def hasFloat : HartM Bool := do
  if ← hasExtension 'F' then return true else hasExtension 'D'

/-- Reset the machine status and what goes with it. -/
def resetStatus (record : FeatureRecord) : HartM Unit := do
  let float := if ← hasFloat then Status.fs.mask else 0
  let vector := if ← hasExtension 'V' then Status.vs.mask else 0
  write .mstatus (float ||| vector)
  let supervisor ← hasExtension 'S'
  if supervisor && record.has FeatureFlags.scounteren then write .scounteren openCounters
  if record.has FeatureFlags.mcounteren then write .mcounteren Word.ones
  if record.has FeatureFlags.mcountinhibit then write .mcountinhibit stoppedCounters
  write .mie 0
  if supervisor then write .satp 0

/-- Clear the floating-point registers, on a hart that has them. -/
def resetFloat : HartM (Except HartError Unit) := do
  if ← hasFloat then
    if Status.fs.extract (← read .mstatus) = 0 then return .error .invalidState
    else
      clearFloat
      return .ok ()
  else return .ok ()

/-- Bring a hart to its baseline. -/
def restore (record : FeatureRecord) (platform : Platform) : HartM (Except HartError Unit) := do
  resetStatus record
  match ← resetFloat with
  | .error error => return .error error
  | .ok () =>
    delegateTraps record platform
    return .ok ()

end HartM

namespace BootM

/-- The source of diagnostics on initialization. -/
def initTarget : String := "rvsbi::hart"

/-- Report the features of a hart. -/
def reportFeatures (record : FeatureRecord) : BootM Unit :=
  diagnose .debug initTarget do
    let hart := (← onHart HartM.hartId).toNat
    let names := record.features.cutText (List.replicate FeatureFlags.textCapacity 0)
    let entries := record.pmpCount.toNat
    let bits := record.pmpAddrBits.toNat
    let granularity := record.pmpGran.toNat
    let counters := record.counterCount.toNat
    let width := record.counterBits.toNat
    return s!"hart{hart}: features {names}, {entries} PMP entries ({bits} bits, "
      ++ s!"{granularity}B granularity), {counters} HPM counters ({width} bits)"

/-- Bring a hart to its baseline from the record in its scratch area. -/
def reinit (platform : Platform) : BootM (Except HartError Unit) := do
  let machine ← get
  match machine.shared.featureOffset with
  | none => return .error .uninitialized
  | some offset => onHart (HartM.restore (machine.area.get offset) platform)

/-- The place of the feature record, which a cold boot reserves if there is none. -/
def featureOffset (cold : Bool) : BootM (Except HartError (Offset FeatureRecord)) := do
  let machine ← get
  if cold then
    match machine.shared.reserveFeatures with
    | some (offset, shared) =>
      set { machine with shared }
      return .ok offset
    | none => return .error .noMemory
  else
    match machine.shared.featureOffset with
    | some offset => return .ok offset
    | none => return .error .uninitialized

/-- Initialize a hart. -/
def init (platform : Platform) (cold : Bool) : BootM (Except HartError Unit) := do
  match ← featureOffset cold with
  | .error error => return .error error
  | .ok offset =>
    let record ← onHart HartM.detect
    modify fun machine => { machine with area := machine.area.put offset record }
    reportFeatures record
    reinit platform

end BootM

end HartBoot
