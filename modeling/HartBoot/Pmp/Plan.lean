import HartBoot.Pmp.Setting

/-! # Dividing protection entries among regions

The regions of a domain are given entries in list order. A region that cannot be protected, or
whose entries are no longer free, is skipped, and the next one may still get the entries. Once
every entry is taken, all remaining regions are skipped together. The plan is made before any
register is touched, because it depends on the features of the hart alone.
-/

namespace HartBoot

/-- What becomes of a region. -/
inductive Verdict where
  /-- The region is protected by the given settings. -/
  | placed (region : Region) (settings : List PmpSetting)
  /-- The hart cannot protect the region. -/
  | unprotectable (region : Region) (error : PmpError)
  /-- Too few entries are left for the region. -/
  | noRoom (region : Region)
  /-- The protection of the region has no encoding in the next entries. -/
  | unencodable (region : Region) (error : PmpError)
  /-- No entry is left for this many regions. -/
  | exhausted (regions : Nat)
deriving DecidableEq, Repr

/-- The verdicts on a list of regions, when some entries are already taken. -/
def Verdict.ofRegions (record : FeatureRecord) (taken : Nat) : List Region → List Verdict
  | [] => []
  | region :: rest =>
    let count := record.pmpCount.toNat
    if count ≤ taken then [.exhausted (rest.length + 1)]
    else
      match Protection.ofRegion region record with
      | .error error => .unprotectable region error :: ofRegions record taken rest
      | .ok protection =>
        if count < taken + protection.slots then .noRoom region :: ofRegions record taken rest
        else
          match protection.encode? taken with
          | .error error => .unencodable region error :: ofRegions record taken rest
          | .ok settings =>
            .placed region settings :: ofRegions record (taken + protection.slots) rest

/-- What was made of the regions of a domain. -/
structure PmpReport where
  /-- Number of entries programmed. -/
  slots : Nat := 0
  /-- Number of regions that are protected. -/
  configured : Nat := 0
  /-- Number of regions that are not. -/
  skipped : Nat := 0
deriving DecidableEq, Repr, Inhabited

namespace PmpReport

/-- The report with one more verdict. -/
def add (report : PmpReport) : Verdict → PmpReport
  | .placed _ settings =>
    { report with
      slots := report.slots + settings.length
      configured := report.configured + 1 }
  | .exhausted regions => { report with skipped := report.skipped + regions }
  | _ => { report with skipped := report.skipped + 1 }

/-- The report on a list of verdicts. -/
def ofVerdicts (verdicts : List Verdict) : PmpReport := verdicts.foldl add {}

end PmpReport

end HartBoot
