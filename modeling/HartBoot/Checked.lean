import HartBoot.Features.Detect
import HartBoot.Pmp.Configure

/-! # Detection and protection in checked arithmetic

Elsewhere, detection and protection count with numbers that have no bound, compute on words that
wrap, and reach registers by indices that are in range by their types. Here they are written once
more in the steps of a machine. A sum, a difference or a shift that does not fit stops the hart,
and so does a number that names no register. Regions are taken one at a time, with the report on
those before, and what only a line of diagnostics needs is computed only for that line.
-/

namespace HartBoot

namespace Word

/-- Sum of two counts that are kept in 32 bits. -/
def addNarrow? (left right : Nat) : Except Overflow Nat :=
  if left + right ≤ 0xffffffff then .ok (left + right) else .error .add

/-- Difference of two counts. -/
def subtractCounts? (left right : Nat) : Except Overflow Nat :=
  if right ≤ left then .ok (left - right) else .error .subtract

/-- Difference of two words. -/
def subtract? (left right : Word) : Except Overflow Word :=
  if right ≤ left then .ok (left - right) else .error .subtract

/-- One more than the position of the highest set bit, counted from the zeros above it. -/
def bitLength? (word : Word) : Except Overflow Nat := subtractCounts? width word.clz.toNat

end Word

namespace Region

/-- First address past a region. -/
def limit? (region : Region) : Except Overflow Word :=
  match region.extent with
  | .napot order =>
    if Word.width ≤ order then return Word.ones
    else return Word.saturatingAdd region.base (← Word.shiftLeft? 1 order)
  | .tor size => return Word.saturatingAdd region.base size

/-- The logarithm that diagnostics show for the size of a region. -/
def order? (region : Region) : Except Overflow Nat :=
  match region.extent with
  | .napot order => return order
  | .tor size => Word.bitLength? size

end Region

namespace Protection

/-- Largest address of an entry with the given number of bits, put together from its highest bit
and the bits below. -/
def addressMax? (bits : Nat) : Except Overflow Word := do
  if bits = 0 then return 0
  else
    let top ← Word.shiftLeft? 1 (← Word.subtractCounts? (min bits Word.width) 1)
    return top ||| (← Word.subtract? top 1)

/-- An address rounded down to a multiple of a power of two. -/
def alignDown? (address unit : Word) : Except Overflow Word :=
  return address &&& ~~~(← Word.subtract? unit 1)

/-- The protection of a region on a hart with the given features. -/
def ofRegion? (region : Region) (record : FeatureRecord) :
    Except Overflow (Except PmpError Protection) := do
  let flags := permissions region.flags
  let unit := granule record
  match region.extent with
  | .napot order =>
    if order < Word.trailingZeros unit then return .error (.belowGranularity order)
    else
      let place ← Word.shiftRight? region.base addressShift
      if (← addressMax? record.pmpAddrBits.toNat) ≤ place then
        return .error (.addressOutOfRange region.base)
      else return .ok (.napot region.base order flags)
  | .tor _ =>
    let start ← alignDown? region.base unit
    return .ok (.tor start (← alignDown? (← region.limit?) unit) flags)

/-- The matching mode and the address of an entry for a block. -/
def blockAddress? (base : Word) (order : Nat) : Except Overflow (PmpFlags × Word) := do
  if order = minOrder then return (PmpFlags.na4, ← Word.shiftRight? base addressShift)
  else if order = maxOrder then return (PmpFlags.napot, Word.ones)
  else
    let size ← Word.shiftLeft? 1 (← Word.subtractCounts? order addressShift)
    let mask ← Word.subtract? size 1
    let place ← Word.shiftRight? base addressShift
    return (PmpFlags.napot, (place &&& ~~~mask) ||| (← Word.shiftRight? mask 1))

end Protection

namespace HartM

/-- The register that a number names, or a stop. -/
def indexed : Except Csr.IndexFault Csr → HartM Csr
  | .ok csr => pure csr
  | .error fault => throw (.index fault)

/-- Number of registers before the first one that fails a test, counted upwards from the given
count. -/
def countRun (register? : Nat → Except Csr.IndexFault Csr) (test : Csr → HartM Bool)
    (count : Nat) : List Nat → HartM Nat
  | [] => return count
  | index :: rest => do
    if ← test (← indexed (register? index)) then
      countRun register? test (← checked (Word.addCounts? count 1)) rest
    else return count

/-- Detect the memory protection of a hart. -/
def detectPmpChecked (record : FeatureRecord) : HartM FeatureRecord := do
  let pattern ← probeAddress
  if pattern = 0 then return record
  else
    let unit ← checked (Word.addNarrow? (Word.trailingZeros pattern) 2)
    let granularity ← checked (Word.shiftLeft? 1 unit)
    let bits ← checked (Word.bitLength? pattern)
    let count ← countRun Csr.pmpaddr? (holds · pattern) 0 (List.range 64)
    return { record with
      pmpGran := granularity
      pmpAddrBits := BitVec.ofNat 32 bits
      pmpCount := BitVec.ofNat 32 count }

/-- Width of a counter, by what it holds once all of its bits are written. -/
def counterWidth? : Option Word → Except Overflow Nat
  | none => return 0
  | some kept => if kept = 0 then return 0 else Word.bitLength? kept

/-- Detect the programmable counters of a hart. -/
def detectCountersChecked (record : FeatureRecord) : HartM FeatureRecord := do
  if ← holds .mhpmcounter3 1 then
    let bits ← checked (counterWidth? (← writableBits? .mhpmcounter3))
    let others ← countRun Csr.counter? (holds · 1) 0
      (List.range' (Csr.firstCounter + 1) (Csr.lastCounter - Csr.firstCounter))
    let count ← checked (Word.addNarrow? 1 others)
    return { record with
      counterBits := BitVec.ofNat 32 bits
      counterCount := BitVec.ofNat 32 count }
  else return record

/-- Detect everything that a feature record tells about a hart. -/
def detectChecked : HartM FeatureRecord := do
  detectOptional (← detectCountersChecked (← detectPmpChecked {}))

/-- Program an entry: its address first, then its octet. -/
def applyChecked (entry : Nat) (config : PmpFlags) (address : Word) : HartM Unit := do
  let register ← indexed (Csr.pmpcfg? (entry / 8 * 2))
  let shift := entry % 8 * 8
  let held ← read register
  let hole ← checked (Word.shiftLeft? 0xff shift)
  let octet ← checked (Word.shiftLeft? (config.bits.setWidth 64) shift)
  write (← indexed (Csr.pmpaddr? entry)) address
  write register ((held &&& ~~~hole) ||| octet)

/-- Protect a block with the given entry. -/
def setBlockChecked (entry : Nat) (flags : PmpFlags) (base : Word) (order : Nat) :
    HartM (Except PmpError Unit) := do
  if 64 ≤ entry then return .error (.invalidEntry entry)
  else if order < Protection.minOrder ∨ Protection.maxOrder < order then
    return .error (.invalidOrder order)
  else
    let (mode, address) ← checked (Protection.blockAddress? base order)
    applyChecked entry (flags.withoutMatching ∪ mode) address
    return .ok ()

/-- Protect a range with the given entry and the next one. -/
def setRangeChecked (entry : Nat) (flags : PmpFlags) (start limit : Word) :
    HartM (Except PmpError Unit) := do
  let next ← checked (Word.addCounts? entry 1)
  if 64 ≤ next then return .error (.invalidEntry next)
  else
    applyChecked entry flags.withoutMatching
      (← checked (Word.shiftRight? start Protection.addressShift))
    applyChecked next (flags.withoutMatching ∪ PmpFlags.tor)
      (← checked (Word.shiftRight? limit Protection.addressShift))
    return .ok ()

/-- Program a protection from the given entry onwards. -/
def protectChecked (protection : Protection) (entry : Nat) : HartM (Except PmpError Unit) :=
  match protection with
  | .napot base order flags => setBlockChecked entry flags base order
  | .tor start limit flags => setRangeChecked entry flags start limit

end HartM

namespace PmpReport

/-- The report with more regions that are not protected. -/
def skip? (report : PmpReport) (regions : Nat) : Except Overflow PmpReport :=
  return { report with skipped := ← Word.addCounts? report.skipped regions }

/-- The report with one more region that is protected, by the given number of entries. -/
def place? (report : PmpReport) (entries : Nat) : Except Overflow PmpReport := do
  let slots ← Word.addCounts? report.slots entries
  return { report with slots, configured := ← Word.addCounts? report.configured 1 }

end PmpReport

namespace BootM

/-- The result of a checked computation, or a stop. -/
def checked {α : Type} (computed : Except Overflow α) : BootM α := onHart (HartM.checked computed)

/-- Protect regions of a domain of the given name, with a report on the regions before them. There
are `total` regions in the domain, and `index` of them come before these. -/
def configureFrom (record : FeatureRecord) (domain : String) (total : Nat) :
    Nat → List Region → PmpReport → BootM PmpReport
  | _, [], report => return report
  | index, region :: rest, report => do
    let count := record.pmpCount.toNat
    if count ≤ report.slots then
      diagnose .debug pmpTarget do
        let regions ← checked (Word.subtractCounts? total index)
        return s!"domain {domain}: PMP entries exhausted, {regions} regions left"
      checked (report.skip? (← checked (Word.subtractCounts? total index)))
    else
      match ← checked (Protection.ofRegion? region record) with
      | .error error =>
        diagnose .warn pmpTarget do
          let base := hex region.base.toNat
          let order ← checked region.order?
          let reason := error.message
          return s!"domain {domain}: cannot protect region {base} (order {order}): {reason}"
        configureFrom record domain total (index + 1) rest (← checked (report.skip? 1))
      | .ok protection =>
        if count < (← checked (Word.addCounts? report.slots protection.slots)) then
          diagnose .warn pmpTarget do
            let base := hex region.base.toNat
            let limit := hex (← checked region.limit?).toNat
            return s!"domain {domain}: no room for range {base}..{limit}"
          configureFrom record domain total (index + 1) rest (← checked (report.skip? 1))
        else
          match ← onHart (HartM.protectChecked protection report.slots) with
          | .ok () =>
            configureFrom record domain total (index + 1) rest
              (← checked (report.place? protection.slots))
          | .error error =>
            diagnose .warn pmpTarget do
              let base := hex region.base.toNat
              let reason := error.message
              return s!"domain {domain}: region {base}: {reason}"
            configureFrom record domain total (index + 1) rest (← checked (report.skip? 1))

/-- Protect the memory of a domain on a hart with the given features. -/
def configureChecked (record : FeatureRecord) (domain : Domain) : BootM PmpReport := do
  let count := record.pmpCount.toNat
  if count = 0 then return { skipped := domain.regions.length }
  else
    let report ← configureFrom record domain.name domain.regions.length 0 domain.regions {}
    if (← onHart HartM.hartId) = domain.bootHart then
      diagnose .info pmpTarget do
        let name := domain.name
        let ⟨slots, configured, skipped⟩ := report
        return s!"domain {name}: {configured} regions in {slots}/{count} PMP entries, {skipped} skipped"
    return report

end BootM

end HartBoot
