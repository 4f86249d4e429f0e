import HartBoot.Proofs.Accounting

/-! # One more entry

A hart with one more entry does not simply go on where the other one stopped. The additional entry
may complete a range, and then the entry that was left over is missing for a block further down the
list. Nothing worse can happen: regions are decided alike until one of them takes the additional
entry, and if that is a range, the regions after it share one entry less, which costs one block at
most. So one more entry never leaves more regions without protection, although it may leave other
ones.
-/

namespace HartBoot

/-- The second allotment grants one region the given number of entries, and decides all other regions
as the first one does. -/
inductive Grants (entries : Nat) : List (Region × Bool) → List (Region × Bool) → Prop
  | here {region : Region} (takes : region.entries = entries) (rest : List (Region × Bool)) :
      Grants entries ((region, false) :: rest) ((region, true) :: rest)
  | later {fewer more : List (Region × Bool)} (decision : Region × Bool)
      (grants : Grants entries fewer more) :
      Grants entries (decision :: fewer) (decision :: more)

/-- What one more entry can make of an allotment: nothing, or it is granted to a region, or a range
is granted its two entries and one of them is taken from a later block. -/
inductive Enlarges : List (Region × Bool) → List (Region × Bool) → Prop
  | same (allotment : List (Region × Bool)) : Enlarges allotment allotment
  | granted (region : Region) (rest : List (Region × Bool)) :
      Enlarges ((region, false) :: rest) ((region, true) :: rest)
  | traded {range : Region} {fewer more : List (Region × Bool)} (takes : range.entries = 2)
      (released : Grants 1 more fewer) :
      Enlarges ((range, false) :: fewer) ((range, true) :: more)
  | later {fewer more : List (Region × Bool)} (decision : Region × Bool)
      (enlarges : Enlarges fewer more) : Enlarges (decision :: fewer) (decision :: more)

/-- A report tells of one more protected region at most, and of no less protection than another. -/
structure PmpReport.Improves (before after : PmpReport) : Prop where
  configured : after.configured = before.configured ∨ after.configured = before.configured + 1
  slots : before.slots ≤ after.slots
  skipped : after.skipped ≤ before.skipped

theorem PmpReport.Improves.refl (report : PmpReport) : report.Improves report where
  configured := .inl rfl
  slots := le_refl _
  skipped := le_refl _

theorem Region.entries_eq (region : Region) : region.entries = 1 ∨ region.entries = 2 := by
  cases extent : region.extent with
  | napot order => exact .inl (by simp only [entries, extent])
  | tor size => exact .inr (by simp only [entries, extent])

variable {record : FeatureRecord} {fewer more : List (Region × Bool)}

theorem Grants.counts {entries : Nat} (grants : Grants entries fewer more) :
    (PmpReport.ofAllotment more).slots = (PmpReport.ofAllotment fewer).slots + entries ∧
      (PmpReport.ofAllotment more).configured = (PmpReport.ofAllotment fewer).configured + 1 ∧
      (PmpReport.ofAllotment fewer).skipped = (PmpReport.ofAllotment more).skipped + 1 := by
  induction grants with
  | here takes rest =>
    rw [PmpReport.ofAllotment_granted, PmpReport.ofAllotment_refused]
    dsimp only
    omega
  | later decision grants ih =>
    obtain ⟨region, taken⟩ := decision
    cases taken with
    | true =>
      rw [PmpReport.ofAllotment_granted, PmpReport.ofAllotment_granted]
      dsimp only
      omega
    | false =>
      rw [PmpReport.ofAllotment_refused, PmpReport.ofAllotment_refused]
      dsimp only
      omega

theorem Enlarges.improves (enlarges : Enlarges fewer more) :
    (PmpReport.ofAllotment fewer).Improves (PmpReport.ofAllotment more) := by
  induction enlarges with
  | same allotment => exact .refl _
  | granted region rest =>
    rw [PmpReport.ofAllotment_granted, PmpReport.ofAllotment_refused]
    constructor <;> dsimp only <;> omega
  | traded takes released =>
    obtain ⟨slots, configured, skipped⟩ := released.counts
    rw [PmpReport.ofAllotment_granted, PmpReport.ofAllotment_refused]
    constructor <;> dsimp only <;> omega
  | later decision enlarges ih =>
    obtain ⟨counted, used, passed⟩ := ih
    obtain ⟨region, taken⟩ := decision
    cases taken with
    | true =>
      rw [PmpReport.ofAllotment_granted, PmpReport.ofAllotment_granted]
      constructor <;> dsimp only <;> omega
    | false =>
      rw [PmpReport.ofAllotment_refused, PmpReport.ofAllotment_refused]
      constructor <;> dsimp only <;> omega

/-- A single entry goes to the first block that has an encoding, if there is one. -/
theorem allot_one (record : FeatureRecord) (regions : List Region) :
    allot record 1 regions = allot record 0 regions ∨
      Grants 1 (allot record 0 regions) (allot record 1 regions) := by
  induction regions with
  | nil => exact .inl rfl
  | cons region rest ih =>
    have positive := region.entries_pos
    have broke : ¬(region.encodable record = true ∧ region.entries ≤ 0) := by omega
    by_cases fits : region.encodable record = true ∧ region.entries ≤ 1
    · have takes : region.entries = 1 := by omega
      right
      rw [allot, if_neg broke, allot, if_pos fits, takes]
      exact .here takes _
    · rw [allot, if_neg fits, allot, if_neg broke]
      rcases ih with same | grants
      · exact .inl (congrArg _ same)
      · exact .inr (grants.later _)

/-- The regions are gone through with and without one more entry side by side. They are decided alike
until one of them takes as many entries as are free with the additional one. -/
theorem enlarges_allot (record : FeatureRecord) (free : Nat) (regions : List Region) :
    Enlarges (allot record free regions) (allot record (free + 1) regions) := by
  induction regions generalizing free with
  | nil => exact .same []
  | cons region rest ih =>
    rw [allot, allot]
    by_cases encodable : region.encodable record = true
    · rcases Nat.lt_trichotomy region.entries (free + 1) with fits | last | large
      · have remaining : free + 1 - region.entries = free - region.entries + 1 := by omega
        rw [if_pos ⟨encodable, Nat.le_of_lt_succ fits⟩, if_pos ⟨encodable, fits.le⟩, remaining]
        exact (ih (free - region.entries)).later _
      · rw [if_neg (by omega), if_pos ⟨encodable, last.le⟩, last, Nat.sub_self]
        rcases region.entries_eq with one | two
        · obtain rfl : free = 0 := by omega
          exact .granted region _
        · obtain rfl : free = 1 := by omega
          rcases allot_one record rest with same | grants
          · rw [same]
            exact .granted region _
          · exact .traded two grants
      · rw [if_neg (by omega), if_neg (by omega)]
        exact (ih free).later _
    · rw [if_neg fun both => encodable both.1, if_neg fun both => encodable both.1]
      exact (ih free).later _

/-- The record of a hart with one more entry. -/
def FeatureRecord.enlarged (record : FeatureRecord) : FeatureRecord :=
  { record with pmpCount := record.pmpCount + 1 }

namespace FeatureRecord

theorem toNat_pmpCount_enlarged (counted : record.pmpCount.toNat + 1 < 2 ^ 32) :
    record.enlarged.pmpCount.toNat = record.pmpCount.toNat + 1 := by
  have one : (1 : BitVec 32).toNat = 1 := rfl
  rw [enlarged, BitVec.toNat_add, one, Nat.mod_eq_of_lt counted]

end FeatureRecord

/-- Handing out entries does not depend on how many there are to begin with. -/
theorem allot_enlarged (record : FeatureRecord) (free : Nat) (regions : List Region) :
    allot record.enlarged free regions = allot record free regions := by
  have same (region : Region) : region.encodable record.enlarged = region.encodable record := rfl
  induction regions generalizing free with
  | nil => rfl
  | cons region rest ih => rw [allot, allot, same, ih, ih]

/-- More entries than can be addressed are of no use. -/
theorem allot_enlarged_of_full (counted : record.pmpCount.toNat + 1 < 2 ^ 32)
    (full : 64 ≤ record.pmpCount.toNat) (regions : List Region) :
    allot record.enlarged (min record.enlarged.pmpCount.toNat 64) regions =
      allot record (min record.pmpCount.toNat 64) regions := by
  rw [allot_enlarged, FeatureRecord.toNat_pmpCount_enlarged counted, min_eq_right full,
    min_eq_right (by omega)]

/-- All entries that there are, and one more. -/
theorem enlarges_allot_enlarged (counted : record.pmpCount.toNat + 1 < 2 ^ 32)
    (regions : List Region) :
    Enlarges (allot record (min record.pmpCount.toNat 64) regions)
      (allot record.enlarged (min record.enlarged.pmpCount.toNat 64) regions) := by
  by_cases full : 64 ≤ record.pmpCount.toNat
  · rw [allot_enlarged_of_full counted full]
    exact .same _
  · have before : min record.pmpCount.toNat 64 = record.pmpCount.toNat := by omega
    have after : min (record.pmpCount.toNat + 1) 64 = record.pmpCount.toNat + 1 := by omega
    rw [allot_enlarged, FeatureRecord.toNat_pmpCount_enlarged counted, before, after]
    exact enlarges_allot record record.pmpCount.toNat regions

/-- A range that is followed by a block. -/
def Domain.contended : Domain where
  name := "contended"
  bootHart := 0
  regions := [
    { base := 0x90000000, extent := .tor 0x3000, flags := ⟨0b011⟩ },
    { base := 0x80000000, extent := .napot 12, flags := ⟨0b111⟩ }]

namespace BootM

/-- On a hart whose protection entries accept writes, one more entry in the record makes
configuration report the same number of configured regions or one more, no fewer entries in use and
no more skipped regions; past the entries that can be addressed it makes no difference to the report.
The regions that are configured with the smaller record need not be among those that are configured
with the larger one. -/
theorem configure_enlarged (record : FeatureRecord) (domain : Domain) (machine : Machine)
    (counted : record.pmpCount.toNat + 1 < 2 ^ 32)
    (writable : machine.hart.csrs.AcceptsPmp)
    (numbered : ∃ id, machine.hart.csrs.value? .mhartid = some id) :
    (∃ report after larger enlarged, configure record domain machine = .ok report after ∧
      configure record.enlarged domain machine = .ok larger enlarged ∧
      (larger.configured = report.configured ∨ larger.configured = report.configured + 1) ∧
      report.slots ≤ larger.slots ∧ larger.skipped ≤ report.skipped ∧
      (64 ≤ record.pmpCount.toNat → larger = report)) ∧
    ∃ (smaller : FeatureRecord) (regions : List Region) (lost : Region),
      lost ∈ placed smaller 0 regions ∧ lost ∉ placed smaller.enlarged 0 regions := by
  obtain ⟨id, numbered⟩ := numbered
  obtain ⟨after, ran, -⟩ := gives_configure_allot writable numbered record domain machine rfl
  obtain ⟨enlarged, again, -⟩ :=
    gives_configure_allot writable numbered record.enlarged domain machine rfl
  have improves := (enlarges_allot_enlarged counted domain.regions).improves
  constructor
  · refine ⟨_, after, _, enlarged, ran, again, improves.configured, improves.slots,
      improves.skipped, ?_⟩
    intro full
    rw [allot_enlarged_of_full counted full]
  · refine ⟨{ pmpCount := 1, pmpGran := 4096, pmpAddrBits := 34 }, Domain.contended.regions,
      { base := 0x80000000, extent := .napot 12, flags := ⟨0b111⟩ }, ?_, ?_⟩
    · decide +kernel
    · decide +kernel

/-- With a single entry, the hart configures the block behind the range. With a second one, it
configures the range instead, so both reports count one region. -/
theorem configure_enlarged_contended :
    let machine : Machine := ⟨Hart.numbered.withPmp (Word.lowMask 54), .blank, {}⟩
    let record : FeatureRecord := { pmpCount := 1, pmpGran := 4096, pmpAddrBits := 34 }
    let smaller : PmpReport := { slots := 1, configured := 1, skipped := 1 }
    let larger : PmpReport := { slots := 2, configured := 1, skipped := 1 }
    (record.pmpCount.toNat + 1 < 2 ^ 32 ∧ machine.hart.csrs.AcceptsPmp ∧
      ∃ id, machine.hart.csrs.value? .mhartid = some id) ∧
    ∃ after enlarged, configure record Domain.contended machine = .ok smaller after ∧
      configure record.enlarged Domain.contended machine = .ok larger enlarged ∧
      smaller.slots ≤ larger.slots := by
  intro machine record smaller larger
  have equipped := Hart.hasPmp_withPmp Hart.numbered (Word.lowMask 54)
  have counted : record.pmpCount.toNat + 1 < 2 ^ 32 := by decide
  have writable : machine.hart.csrs.AcceptsPmp := equipped.acceptsPmp
  have numbered := Hart.value?_numbered_withPmp (Word.lowMask 54)
  obtain ⟨⟨report, after, improved, enlarged, ran, again, -, slots, -⟩, -⟩ :=
    configure_enlarged record Domain.contended machine counted writable ⟨0, numbered⟩
  obtain rfl : report = smaller :=
    (report_of_configure writable numbered ran).trans (by decide +kernel)
  obtain rfl : improved = larger :=
    (report_of_configure writable numbered again).trans (by decide +kernel)
  exact ⟨⟨counted, writable, 0, numbered⟩, after, enlarged, ran, again, slots⟩

end BootM

end HartBoot
