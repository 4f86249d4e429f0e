import HartBoot.Calls
import HartBoot.Checked

/-! # Calls in checked arithmetic

The steps of a machine that detection and protection are made of are written out elsewhere. Here the
report on the features of a hart joins them, whose text is copied into a buffer piece by piece, and
with it all calls. A range of bytes that a buffer does not have would leave a negative number of
bytes behind it.
-/

namespace HartBoot

/-- Copy as many of the given bytes as still fit into a buffer that is filled up to some position,
and tell how far it is filled then. -/
def Sink.writeChecked? (bytes : List Byte) (filled : Nat) (text : List Byte) :
    Except Overflow (List Byte × Nat) := do
  let count := min text.length (← Word.subtractCounts? bytes.length filled)
  let stop ← Word.addCounts? filled count
  let _behind ← Word.subtractCounts? bytes.length stop
  let _unwritten ← Word.subtractCounts? text.length count
  return (bytes.take filled ++ text.take count ++ bytes.drop stop, stop)

namespace FeatureFlags

/-- Write the text of a set into an empty buffer, name by name. -/
def writeChecked? (flags : FeatureFlags) (buffer : List Byte) :
    Except Overflow (List Byte × Nat) :=
  match flags.featureNames with
  | [] => Sink.writeChecked? buffer 0 (asciiBytes "none")
  | first :: rest => do
    rest.foldlM (fun sink name => do
        let sink ← Sink.writeChecked? sink.1 sink.2 (asciiBytes ",")
        Sink.writeChecked? sink.1 sink.2 (asciiBytes name))
      (← Sink.writeChecked? buffer 0 (asciiBytes first))

/-- The text of a set, cut to a buffer of the given content. -/
def cutTextChecked? (flags : FeatureFlags) (buffer : List Byte) : Except Overflow String := do
  let sink ← flags.writeChecked? buffer
  let _behind ← Word.subtractCounts? sink.1.length sink.2
  return asciiText (sink.1.take sink.2)

end FeatureFlags

namespace BootM

/-- Report the features of a hart. -/
def reportFeaturesChecked (record : FeatureRecord) : BootM Unit :=
  diagnose .debug initTarget do
    let hart := (← onHart HartM.hartId).toNat
    let names ← checked
      (record.features.cutTextChecked? (List.replicate FeatureFlags.textCapacity 0))
    let entries := record.pmpCount.toNat
    let bits := record.pmpAddrBits.toNat
    let granularity := record.pmpGran.toNat
    let counters := record.counterCount.toNat
    let width := record.counterBits.toNat
    return s!"hart{hart}: features {names}, {entries} PMP entries ({bits} bits, "
      ++ s!"{granularity}B granularity), {counters} HPM counters ({width} bits)"

/-- Initialize a hart. -/
def initChecked (platform : Platform) (cold : Bool) : BootM (Except HartError Unit) := do
  match ← featureOffset cold with
  | .error error => return .error error
  | .ok offset =>
    let record ← onHart HartM.detectChecked
    modify fun machine => { machine with area := machine.area.put offset record }
    reportFeaturesChecked record
    reinit platform

end BootM

/-- What a hart does in a step. -/
def BootStep.actionChecked : BootStep → BootM BootAnswer
  | .init platform cold => return .initialized (← BootM.initChecked platform cold)
  | .detect => return .detected (← BootM.onHart HartM.detectChecked)
  | .configure domain => do
    let record ← BootM.storedFeatures
    return .configured (← BootM.configureChecked record domain)
  | .setBlock entry flags base order =>
    return .programmed (← BootM.onHart (HartM.setBlockChecked entry flags base order))
  | .setRange entry flags start limit =>
    return .programmed (← BootM.onHart (HartM.setRangeChecked entry flags start limit))
  | .reinit platform => (BootStep.reinit platform).action
  | .delegateTraps given platform => (BootStep.delegateTraps given platform).action
  | .switchMode request arg0 arg1 => (BootStep.switchMode request arg0 arg1).action

/-- What a hart does in a call. -/
def HartCall.actionChecked : HartCall → BootM HartAnswer
  | .boot step => return .booted (← step.actionChecked)
  | .configure record domain => return .configured (← BootM.configureChecked record domain)
  | .validate request => (HartCall.validate request).action
  | .prepare request => (HartCall.prepare request).action

/-- The regions that a call is given are as few as a word can count. -/
def HartCall.Countable : HartCall → Prop
  | .boot (.configure domain) | .configure _ domain =>
    domain.regions.length ≤ Word.ones.toNat
  | _ => True

end HartBoot
