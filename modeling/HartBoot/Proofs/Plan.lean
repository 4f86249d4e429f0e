import HartBoot.Pmp.Plan
import Mathlib.Data.List.Basic
import Mathlib.Data.List.Range

/-! # The plan for a list of regions

The verdicts on a list of regions amount to a list of settings and to the regions that they
protect. Verdicts are made one region at a time and in three ways only: the region gets the next
entries, or it is passed over, or there are no entries left for any region. It follows that the
settings take consecutive entries, whatever regions are passed over, and that the report counts
what the plan contains.
-/

namespace HartBoot

/-- The settings that carry out a verdict. -/
def Verdict.settings : Verdict → List PmpSetting
  | .placed _ settings => settings
  | _ => []

/-- The region that a verdict protects. -/
def Verdict.region? : Verdict → Option Region
  | .placed region _ => some region
  | _ => none

/-- The settings programmed for regions when some entries are already taken. -/
def plan (record : FeatureRecord) (taken : Nat) (regions : List Region) : List PmpSetting :=
  (Verdict.ofRegions record taken regions).flatMap Verdict.settings

/-- The regions that get entries when some entries are already taken. -/
def placed (record : FeatureRecord) (taken : Nat) (regions : List Region) : List Region :=
  (Verdict.ofRegions record taken regions).filterMap Verdict.region?

/-- A protection that a region gets, with the entries from a given one onwards. -/
structure Placement (record : FeatureRecord) (taken : Nat) (region : Region)
    (settings : List PmpSetting) where
  protection : Protection
  made : Protection.ofRegion region record = .ok protection
  encoded : protection.encode? taken = .ok settings
  room : taken + protection.slots ≤ record.pmpCount.toNat

/-- A verdict that passes over one region. -/
structure Verdict.Skips (verdict : Verdict) : Prop where
  settings_eq : verdict.settings = []
  region?_eq : verdict.region? = none
  report (report : PmpReport) : report.add verdict = { report with skipped := report.skipped + 1 }

variable {record : FeatureRecord} {taken : Nat} {region : Region} {rest : List Region}

/-- The verdicts on a list begin in one of three ways. -/
theorem Verdict.ofRegions_cons (record : FeatureRecord) (taken : Nat) (region : Region)
    (rest : List Region) :
    (record.pmpCount.toNat ≤ taken ∧
      ofRegions record taken (region :: rest) = [.exhausted (rest.length + 1)]) ∨
    (∃ verdict : Verdict, verdict.Skips ∧
      ofRegions record taken (region :: rest) = verdict :: ofRegions record taken rest) ∨
    ∃ settings, ∃ placement : Placement record taken region settings,
      ofRegions record taken (region :: rest) = .placed region settings ::
        ofRegions record (taken + placement.protection.slots) rest := by
  rw [ofRegions]
  split
  next full => exact .inl ⟨full, rfl⟩
  next free =>
    refine .inr ?_
    cases made : Protection.ofRegion region record with
    | error error => exact .inl ⟨.unprotectable region error, ⟨rfl, rfl, fun _ => rfl⟩, rfl⟩
    | ok protection =>
      dsimp only
      split
      next => exact .inl ⟨.noRoom region, ⟨rfl, rfl, fun _ => rfl⟩, rfl⟩
      next room =>
        cases encoded : protection.encode? taken with
        | error error => exact .inl ⟨.unencodable region error, ⟨rfl, rfl, fun _ => rfl⟩, rfl⟩
        | ok settings =>
          exact .inr ⟨settings, ⟨protection, made, encoded, Nat.not_lt.mp room⟩, rfl⟩

/-- A protection is set by the entries from the given one onwards. -/
theorem Protection.entries_of_encode? {protection : Protection} {settings : List PmpSetting}
    (encoded : protection.encode? taken = .ok settings) :
    settings.map (·.entry.val) = List.range' taken protection.slots := by
  cases protection with
  | napot base order flags =>
    simp only [encode?, encodeBlock?] at encoded
    split at encoded
    · split at encoded
      · obtain rfl := Except.ok.inj encoded
        rfl
      · simp at encoded
    · simp at encoded
  | tor start limit flags =>
    simp only [encode?, encodeRange?] at encoded
    split at encoded
    · obtain rfl := Except.ok.inj encoded
      rfl
    · simp at encoded

theorem Placement.entries {settings : List PmpSetting}
    (placement : Placement record taken region settings) :
    settings.map (·.entry.val) = List.range' taken placement.protection.slots :=
  Protection.entries_of_encode? placement.encoded

theorem Placement.length_eq {settings : List PmpSetting}
    (placement : Placement record taken region settings) :
    settings.length = placement.protection.slots :=
  Protection.length_of_encode? placement.encoded

/-- The setting of the entry that protects a block. -/
def blockSetting (region : Region) (order : Nat) (entry : Fin 64) : PmpSetting where
  entry := entry
  config := (Protection.permissions region.flags).withoutMatching ∪
    (Protection.blockAddress region.base order).1
  address := (Protection.blockAddress region.base order).2

theorem entry_lt_of_next (inRange : taken + 1 < 64) : taken < 64 := Nat.lt_of_succ_lt inRange

/-- The setting of the entry before a range, which holds its lower bound. -/
def startSetting (record : FeatureRecord) (region : Region) (entry : Fin 64) : PmpSetting where
  entry := entry
  config := (Protection.permissions region.flags).withoutMatching
  address := Protection.alignDown region.base (Protection.granule record) >>> Protection.addressShift

/-- The setting of the entry that protects a range. -/
def limitSetting (record : FeatureRecord) (region : Region) (entry : Fin 64) : PmpSetting where
  entry := entry
  config := (Protection.permissions region.flags).withoutMatching ∪ PmpFlags.tor
  address := Protection.alignDown region.limit (Protection.granule record) >>> Protection.addressShift

/-- A placement is that of a block that the hart can hold, or that of a range. -/
theorem Placement.kinds {settings : List PmpSetting}
    (placement : Placement record taken region settings) :
    (∃ order, ∃ inRange : taken < 64, region.extent = .napot order ∧ 2 ≤ order ∧ order ≤ 64 ∧
      Word.trailingZeros (Protection.granule record) ≤ order ∧
      region.base >>> Protection.addressShift < Protection.addressMax record.pmpAddrBits.toNat ∧
      settings = [blockSetting region order ⟨taken, inRange⟩]) ∨
    ∃ size, ∃ inRange : taken + 1 < 64, region.extent = .tor size ∧
      settings = [startSetting record region ⟨taken, entry_lt_of_next inRange⟩,
        limitSetting record region ⟨taken + 1, inRange⟩] := by
  obtain ⟨protection, made, encoded, -⟩ := placement
  cases extent : region.extent with
  | napot order =>
    left
    simp only [Protection.ofRegion, extent] at made
    split at made
    · simp at made
    next coarse =>
      split at made
      · simp at made
      next reachable =>
        obtain rfl := Except.ok.inj made
        simp only [Protection.encode?, Protection.encodeBlock?] at encoded
        split at encoded
        next inRange =>
          split at encoded
          next sized =>
            obtain rfl := Except.ok.inj encoded
            exact ⟨order, inRange, rfl, sized.1, sized.2, Nat.not_lt.mp coarse,
              BitVec.not_le.mp reachable, rfl⟩
          · simp at encoded
        · simp at encoded
  | tor size =>
    right
    rw [Protection.ofRegion_of_tor extent] at made
    obtain rfl := Except.ok.inj made
    simp only [Protection.encode?, Protection.encodeRange?] at encoded
    split at encoded
    next inRange =>
      obtain rfl := Except.ok.inj encoded
      exact ⟨size, inRange, rfl, rfl⟩
    · simp at encoded

/-- The plan for a list begins in one of three ways, and so do the regions that it protects. -/
theorem plan_cons (record : FeatureRecord) (taken : Nat) (region : Region) (rest : List Region) :
    (plan record taken (region :: rest) = [] ∧ placed record taken (region :: rest) = []) ∨
    (plan record taken (region :: rest) = plan record taken rest ∧
      placed record taken (region :: rest) = placed record taken rest) ∨
    ∃ settings, ∃ placement : Placement record taken region settings,
      plan record taken (region :: rest) =
        settings ++ plan record (taken + placement.protection.slots) rest ∧
      placed record taken (region :: rest) =
        region :: placed record (taken + placement.protection.slots) rest := by
  rcases Verdict.ofRegions_cons record taken region rest with
    ⟨-, full⟩ | ⟨verdict, skips, skipped⟩ | ⟨settings, placement, protects⟩
  · left
    rw [plan, placed, full]
    exact ⟨rfl, rfl⟩
  · right; left
    rw [plan, placed, skipped, List.flatMap_cons, skips.settings_eq, List.nil_append,
      List.filterMap_cons_none skips.region?_eq]
    exact ⟨rfl, rfl⟩
  · right; right
    refine ⟨settings, placement, ?_⟩
    rw [plan, placed, protects]
    exact ⟨rfl, rfl⟩

/-- Nothing is planned when every entry is taken. -/
theorem plan_of_full (full : record.pmpCount.toNat ≤ taken) (regions : List Region) :
    plan record taken regions = [] ∧ placed record taken regions = [] := by
  cases regions with
  | nil => exact ⟨rfl, rfl⟩
  | cons region rest =>
    rw [plan, placed, Verdict.ofRegions, if_pos full]
    exact ⟨rfl, rfl⟩

/-- A plan takes consecutive entries. -/
theorem entries_plan (record : FeatureRecord) (taken : Nat) (regions : List Region) :
    (plan record taken regions).map (·.entry.val) =
      List.range' taken (plan record taken regions).length := by
  induction regions generalizing taken with
  | nil => rfl
  | cons region rest ih =>
    rcases plan_cons record taken region rest with
      ⟨none, -⟩ | ⟨same, -⟩ | ⟨settings, placement, more, -⟩
    · rw [none]
      rfl
    · rw [same]
      exact ih taken
    · rw [more, List.map_append, List.length_append, placement.entries, ih, placement.length_eq,
        List.range'_append_1]

theorem placed_sublist (record : FeatureRecord) (taken : Nat) (regions : List Region) :
    (placed record taken regions).Sublist regions := by
  induction regions generalizing taken with
  | nil => exact .slnil
  | cons region rest ih =>
    rcases plan_cons record taken region rest with
      ⟨-, none⟩ | ⟨-, same⟩ | ⟨settings, placement, -, more⟩
    · rw [none]
      exact List.nil_sublist _
    · rw [same]
      exact (ih taken).cons region
    · rw [more]
      exact (ih _).cons_cons region

/-- The report counts the settings, the regions that they protect, and the others. -/
theorem report_plan (record : FeatureRecord) (taken : Nat) (regions : List Region)
    (report : PmpReport) :
    (Verdict.ofRegions record taken regions).foldl PmpReport.add report = {
      slots := report.slots + (plan record taken regions).length
      configured := report.configured + (placed record taken regions).length
      skipped := report.skipped + (regions.length - (placed record taken regions).length) } := by
  induction regions generalizing taken report with
  | nil => rfl
  | cons region rest ih =>
    rcases Verdict.ofRegions_cons record taken region rest with
      ⟨-, full⟩ | ⟨verdict, skips, skipped⟩ | ⟨settings, placement, protects⟩
    · rw [plan, placed, full]
      rfl
    · have fewer := (placed_sublist record taken rest).length_le
      rw [plan, placed, skipped, List.foldl_cons, skips.report, ih, List.flatMap_cons,
        skips.settings_eq, List.nil_append, List.filterMap_cons_none skips.region?_eq, ← plan,
        ← placed, List.length_cons, PmpReport.mk.injEq]
      dsimp only
      omega
    · have covered : (Verdict.placed region settings).region? = some region := rfl
      rw [plan, placed, protects, List.foldl_cons, ih, List.flatMap_cons,
        List.filterMap_cons_some covered, ← plan, ← placed, List.length_append, List.length_cons,
        List.length_cons, PmpReport.mk.injEq]
      simp only [PmpReport.add, Verdict.settings]
      omega

/-- Every region that is protected has a placement of its own. -/
theorem exists_placement {regions : List Region} {settings : List PmpSetting}
    (member : Verdict.placed region settings ∈ Verdict.ofRegions record taken regions) :
    ∃ first, Nonempty (Placement record first region settings) := by
  induction regions generalizing taken with
  | nil => exact absurd member List.not_mem_nil
  | cons head rest ih =>
    rcases Verdict.ofRegions_cons record taken head rest with
      ⟨-, full⟩ | ⟨verdict, skips, skipped⟩ | ⟨others, placement, protects⟩
    · rw [full] at member
      simp at member
    · rw [skipped] at member
      rcases List.mem_cons.mp member with rfl | later
      · exact absurd skips.region?_eq (by simp [Verdict.region?])
      · exact ih later
    · rw [protects] at member
      rcases List.mem_cons.mp member with same | later
      · obtain ⟨rfl, rfl⟩ := Verdict.placed.inj same
        exact ⟨taken, ⟨placement⟩⟩
      · exact ih later

/-- A plan keeps to the entries that the record counts. -/
theorem entry_lt_of_mem_plan {regions : List Region} {setting : PmpSetting}
    (member : setting ∈ plan record taken regions) : setting.entry.val < record.pmpCount.toNat := by
  obtain ⟨verdict, made, listed⟩ := List.mem_flatMap.mp member
  cases verdict with
  | placed region settings =>
    obtain ⟨first, ⟨placement⟩⟩ := exists_placement made
    have entry : setting.entry.val ∈ settings.map (·.entry.val) := List.mem_map_of_mem listed
    rw [placement.entries, List.mem_range'_1] at entry
    exact entry.2.trans_le placement.room
  | _ => exact absurd listed List.not_mem_nil

end HartBoot
