import HartBoot.Features
import HartBoot.Hart

/-! # Detecting the features of a hart

A hart finds out what it implements by trying. A register is probed by guarded accesses, and what
it held before is put back, so that detection leaves all registers as they were. Only the first
protection entry is changed for good: its configuration register is cleared, and its address keeps
the pattern that was tried. That pattern tells how finely memory can be divided and how many
address bits there are; entries and counters are counted up to the first one that is missing.
-/

namespace HartBoot.HartM

/-- The address pattern with all bits of a physical address, which has 56 bits of which the two
lowest are not kept. -/
def addressPattern : Word := 0x003fffffffffffff

/-- Whether a register holds a value once it is written. Its previous content is put back. -/
def holds (csr : Csr) (value : Word) : HartM Bool := do
  match ← probeRead csr with
  | .error _ => return false
  | .ok previous =>
    if csr.isReadOnly then return true
    else
      match ← probeWrite csr value with
      | .error _ => return false
      | .ok () => return (← swap csr previous) == value

/-- What a register holds once all of its bits are written. Its previous content is put back. -/
def writableBits? (csr : Csr) : HartM (Option Word) := do
  match ← probeRead csr with
  | .error _ => return none
  | .ok previous =>
    match ← probeWrite csr Word.ones with
    | .error _ => return none
    | .ok () => return some (← swap csr previous)

/-- Whether a register can be read and its own content written to it. -/
def isControllable (csr : Csr) : HartM Bool := do
  match ← probeRead csr with
  | .error _ => return false
  | .ok content => return (← probeWrite csr content).isOk

/-- Number of registers before the first one that fails a test. -/
def leadingRun (test : Csr → HartM Bool) : List Csr → HartM Nat
  | [] => return 0
  | csr :: rest => do
    if ← test csr then return (← leadingRun test rest) + 1 else return 0

/-- What the first protection entry holds of all possible address bits, or zero without memory
protection. -/
def probeAddress : HartM Word := do
  match ← probeWrite .pmpcfg0 0 with
  | .error _ => return 0
  | .ok () =>
    match ← probeWrite .pmpaddr0 addressPattern with
    | .error _ => return 0
    | .ok () => return (← probeRead .pmpaddr0).toOption.getD 0

/-- Detect the memory protection of a hart. The granularity is a word, which fails to hold it for
a pattern whose lowest bit is one of the two highest. -/
def detectPmp (record : FeatureRecord) : HartM FeatureRecord := do
  let pattern ← probeAddress
  if pattern = 0 then return record
  else
    let granularity ← checked (Word.shiftLeft? 1 (Word.trailingZeros pattern + 2))
    let count ← leadingRun (holds · pattern) ((List.finRange 64).map Csr.pmpaddr)
    return { record with
      pmpGran := granularity
      pmpAddrBits := BitVec.ofNat 32 (Word.bitLength pattern)
      pmpCount := BitVec.ofNat 32 count }

/-- Detect the programmable counters of a hart. -/
def detectCounters (record : FeatureRecord) : HartM FeatureRecord := do
  if ← holds .mhpmcounter3 1 then
    let bits := (← writableBits? .mhpmcounter3).elim 0 Word.bitLength
    let others := (List.finRange 28).map fun index : Fin 28 =>
      Csr.machineCounter ⟨index + 4, by omega⟩
    let count ← leadingRun (holds · 1) others
    return { record with
      counterBits := BitVec.ofNat 32 bits
      counterCount := BitVec.ofNat 32 (1 + count) }
  else return record

/-- The record with a feature added if it is present. -/
def addFeature (record : FeatureRecord) (present : Bool) (feature : FeatureFlags) :
    FeatureRecord :=
  if present then { record with features := record.features ∪ feature } else record

/-- Detect the optional registers of a hart. Counter overflow is of no use unless counters can be
both opened and stopped, so it is not looked for otherwise. -/
def detectOptional (record : FeatureRecord) : HartM FeatureRecord := do
  let record := addFeature record (← isControllable .scounteren) FeatureFlags.scounteren
  let record := addFeature record (← isControllable .mcounteren) FeatureFlags.mcounteren
  let record := addFeature record (← isControllable .mcountinhibit) FeatureFlags.mcountinhibit
  let record ←
    if record.has (FeatureFlags.mcounteren ∪ FeatureFlags.mcountinhibit) then
      pure (addFeature record (← probeRead .scountovf).isOk FeatureFlags.sscofpmf)
    else pure record
  return addFeature record (← probeRead .time).isOk FeatureFlags.time

/-- Detect everything that a feature record tells about a hart. -/
def detect : HartM FeatureRecord := do
  detectOptional (← detectCounters (← detectPmp {}))

end HartBoot.HartM
