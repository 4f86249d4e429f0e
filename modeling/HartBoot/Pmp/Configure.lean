import HartBoot.Machine
import HartBoot.Pmp.Plan

/-! # Protecting the memory of a domain

The verdicts on the regions of a domain are carried out in order: protected regions are
programmed, and all others are reported. At the end the hart in charge of the domain reports the
outcome. A hart without protection entries leaves every region as it is and says nothing.
-/

namespace HartBoot.BootM

/-- The source of diagnostics on memory protection. -/
def pmpTarget : String := "rvsbi::hart::pmp"

/-- Carry out the verdict on a region of the named domain. -/
def carryOut (domain : String) : Verdict → BootM Unit
  | .placed _ settings => onHart (settings.forM PmpSetting.apply)
  | .unprotectable region error =>
    diagnose .warn pmpTarget do
      let base := hex region.base.toNat
      let order := region.order
      let reason := error.message
      return s!"domain {domain}: cannot protect region {base} (order {order}): {reason}"
  | .noRoom region =>
    diagnose .warn pmpTarget do
      let base := hex region.base.toNat
      let limit := hex region.limit.toNat
      return s!"domain {domain}: no room for range {base}..{limit}"
  | .unencodable region error =>
    diagnose .warn pmpTarget do
      let base := hex region.base.toNat
      let reason := error.message
      return s!"domain {domain}: region {base}: {reason}"
  | .exhausted regions =>
    diagnose .debug pmpTarget do
      return s!"domain {domain}: PMP entries exhausted, {regions} regions left"

/-- Protect the memory of a domain on a hart with the given features. -/
def configure (record : FeatureRecord) (domain : Domain) : BootM PmpReport := do
  let count := record.pmpCount.toNat
  if count = 0 then return { skipped := domain.regions.length }
  else
    let verdicts := Verdict.ofRegions record 0 domain.regions
    verdicts.forM (carryOut domain.name)
    let report := PmpReport.ofVerdicts verdicts
    if (← onHart HartM.hartId) = domain.bootHart then
      diagnose .info pmpTarget do
        let name := domain.name
        let ⟨slots, configured, skipped⟩ := report
        return s!"domain {name}: {configured} regions in {slots}/{count} PMP entries, {skipped} skipped"
    return report

end HartBoot.BootM
