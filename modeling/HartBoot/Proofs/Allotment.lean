import HartBoot.Proofs.Plan
import Mathlib.Algebra.GroupWithZero.Nat

/-! # Handing out entries to regions

The entries of a hart are handed out greedily. Regions are gone through in order, and each gets the
entries that it takes if it can be encoded at all and as many entries are still free; else it is
passed over, and those after it are tried all the same. What a hart does is more involved: it checks
the number of its entries and the number that can be addressed at different times, and gives up on
all remaining regions at once when its entries run out. The outcome is the same. A region gets a
placement in the plan exactly if it gets its entries here, with the smaller of the two numbers of
entries to begin with, and the report of the plan is that of the entries handed out.
-/

namespace HartBoot

namespace Region

/-- Number of entries that a region takes. -/
def entries (region : Region) : Nat :=
  match region.extent with
  | .napot _ => 1
  | .tor _ => 2

/-- Whether a region has an encoding: it is accepted for protection, and its size has one if it is a
block. -/
def encodable (record : FeatureRecord) (region : Region) : Bool :=
  (Protection.ofRegion region record).isOk &&
    match region.extent with
    | .napot order => 2 ≤ order && order ≤ 64
    | .tor _ => true

theorem entries_pos (region : Region) : 0 < region.entries := by
  unfold entries
  split <;> decide

end Region

/-- Hand out entries to regions in order, as long as there are free ones. Each region is listed with
whether it gets the entries that it takes. -/
def allot (record : FeatureRecord) : (free : Nat) → List Region → List (Region × Bool)
  | _, [] => []
  | free, region :: rest =>
    if region.encodable record ∧ region.entries ≤ free then
      (region, true) :: allot record (free - region.entries) rest
    else (region, false) :: allot record free rest

/-- The report on entries that were handed out. -/
def PmpReport.ofAllotment (allotment : List (Region × Bool)) : PmpReport where
  slots := ((allotment.filter (·.2)).map (·.1.entries)).sum
  configured := allotment.countP (·.2)
  skipped := allotment.countP (! ·.2)

theorem PmpReport.ofAllotment_granted (region : Region) (rest : List (Region × Bool)) :
    ofAllotment ((region, true) :: rest) = {
      slots := region.entries + (ofAllotment rest).slots
      configured := (ofAllotment rest).configured + 1
      skipped := (ofAllotment rest).skipped } := by
  simp [ofAllotment]

theorem PmpReport.ofAllotment_refused (region : Region) (rest : List (Region × Bool)) :
    ofAllotment ((region, false) :: rest) =
      { ofAllotment rest with skipped := (ofAllotment rest).skipped + 1 } := by
  simp [ofAllotment]

variable {record : FeatureRecord} {taken : Nat} {region : Region} {rest : List Region}

namespace Protection

variable {protection : Protection}

/-- A block that is accepted is protected as it is. -/
theorem eq_of_ofRegion_napot {order : Nat} (block : region.extent = .napot order)
    (made : ofRegion region record = .ok protection) :
    protection = .napot region.base order (permissions region.flags) := by
  simp only [ofRegion, block] at made
  split at made
  · cases made
  · split at made
    · cases made
    · exact (Except.ok.inj made).symm

/-- The protection of a region takes as many entries as the region does. -/
theorem slots_of_ofRegion (made : ofRegion region record = .ok protection) :
    protection.slots = region.entries := by
  cases extent : region.extent with
  | napot order =>
    rw [eq_of_ofRegion_napot extent made, slots, Region.entries, extent]
  | tor size =>
    rw [ofRegion_of_tor extent] at made
    rw [← Except.ok.inj made, slots, Region.entries, extent]

/-- The protection of a region that has an encoding is encoded in any entries that can be
addressed. -/
theorem exists_settings_of_encodable (made : ofRegion region record = .ok protection)
    (encodable : region.encodable record = true) (room : taken + region.entries ≤ 64) :
    ∃ settings, protection.encode? taken = .ok settings := by
  have sized := (Bool.and_eq_true_iff.mp encodable).2
  cases extent : region.extent with
  | napot order =>
    have one : region.entries = 1 := by simp only [Region.entries, extent]
    rw [extent, Bool.and_eq_true, decide_eq_true_eq, decide_eq_true_eq] at sized
    have inside : minOrder ≤ order ∧ order ≤ maxOrder := sized
    rw [eq_of_ofRegion_napot extent made, encode?, encodeBlock?, dif_pos (by omega), if_pos inside]
    exact ⟨_, rfl⟩
  | tor size =>
    have two : region.entries = 2 := by simp only [Region.entries, extent]
    rw [ofRegion_of_tor extent] at made
    rw [← Except.ok.inj made, encode?, encodeRange?, dif_pos (by omega)]
    exact ⟨_, rfl⟩

end Protection

theorem Placement.slots_eq {settings : List PmpSetting}
    (placement : Placement record taken region settings) :
    placement.protection.slots = region.entries := Protection.slots_of_ofRegion placement.made

/-- A region has a placement from some entry on exactly if it has an encoding and fits before the
end of the entries, which is set by their number and by what can be addressed. -/
theorem exists_placement_iff :
    (∃ settings, Nonempty (Placement record taken region settings)) ↔
      region.encodable record = true ∧
        region.entries ≤ min record.pmpCount.toNat 64 - taken := by
  constructor
  · rintro ⟨settings, ⟨placement⟩⟩
    have room := placement.room
    rw [placement.slots_eq] at room
    have accepted : (Protection.ofRegion region record).isOk = true := by
      rw [placement.made]
      rfl
    rcases placement.kinds with
      ⟨order, inRange, block, low, high, -⟩ | ⟨size, inRange, range, -⟩
    · have one : region.entries = 1 := by simp only [Region.entries, block]
      exact ⟨by simp [Region.encodable, accepted, block, low, high], by omega⟩
    · have two : region.entries = 2 := by simp only [Region.entries, range]
      exact ⟨by simp [Region.encodable, accepted, range], by omega⟩
  · rintro ⟨encodable, room⟩
    have positive := region.entries_pos
    cases made : Protection.ofRegion region record with
    | error error =>
      rw [Region.encodable, made] at encodable
      cases encodable
    | ok protection =>
      have fits : taken + protection.slots ≤ record.pmpCount.toNat := by
        rw [Protection.slots_of_ofRegion made]
        omega
      have addressable : taken + region.entries ≤ 64 := by omega
      obtain ⟨settings, encoded⟩ :=
        Protection.exists_settings_of_encodable made encodable addressable
      exact ⟨settings, ⟨⟨protection, made, encoded, fits⟩⟩⟩

/-- A region that has a placement gets it. -/
theorem Verdict.ofRegions_of_placement {settings : List PmpSetting}
    (placement : Placement record taken region settings) :
    ofRegions record taken (region :: rest) =
      .placed region settings :: ofRegions record (taken + region.entries) rest := by
  have room := placement.room
  have positive := placement.protection.slots_pos
  rw [ofRegions, if_neg (by omega), placement.made]
  dsimp only
  rw [if_neg (by omega), placement.encoded, placement.slots_eq]

/-- The regions with a placement are those that get entries. -/
theorem filter_allot (record : FeatureRecord) (taken : Nat) (regions : List Region) :
    ((allot record (min record.pmpCount.toNat 64 - taken) regions).filter (·.2)).map Prod.fst =
      placed record taken regions := by
  induction regions generalizing taken with
  | nil => rfl
  | cons region rest ih =>
    by_cases fits : region.encodable record = true ∧
        region.entries ≤ min record.pmpCount.toNat 64 - taken
    · obtain ⟨settings, ⟨placement⟩⟩ := exists_placement_iff.mpr fits
      rw [allot, if_pos fits, placed, Verdict.ofRegions_of_placement placement, Nat.sub_sub,
        List.filter_cons_of_pos rfl, List.map_cons, ih]
      rfl
    · rw [allot, if_neg fits, List.filter_cons_of_neg Bool.false_ne_true, ih]
      rcases Verdict.ofRegions_cons record taken region rest with
        ⟨full, -⟩ | ⟨verdict, skips, skipped⟩ | ⟨settings, placement, -⟩
      · rw [(plan_of_full full rest).2, (plan_of_full full (region :: rest)).2]
      · rw [placed, placed, skipped, List.filterMap_cons_none skips.region?_eq]
      · exact absurd (exists_placement_iff.mp ⟨settings, ⟨placement⟩⟩) fits

/-- The plan for regions has as many settings as those with a placement take entries. -/
theorem sum_entries_placed (record : FeatureRecord) (taken : Nat) (regions : List Region) :
    ((placed record taken regions).map Region.entries).sum =
      (plan record taken regions).length := by
  induction regions generalizing taken with
  | nil => rfl
  | cons region rest ih =>
    rcases plan_cons record taken region rest with
      ⟨nothing, none⟩ | ⟨same, others⟩ | ⟨settings, placement, more, others⟩
    · rw [nothing, none]
      rfl
    · rw [same, others, ih]
    · rw [more, others, List.map_cons, List.sum_cons, List.length_append, ih, placement.length_eq,
        placement.slots_eq]

theorem length_allot (record : FeatureRecord) (free : Nat) (regions : List Region) :
    (allot record free regions).length = regions.length := by
  induction regions generalizing free with
  | nil => rfl
  | cons region rest ih =>
    rw [allot]
    split
    · rw [List.length_cons, ih, List.length_cons]
    · rw [List.length_cons, ih, List.length_cons]

/-- No more entries are handed out than there are. -/
theorem PmpReport.slots_allot_le (record : FeatureRecord) (free : Nat) (regions : List Region) :
    (ofAllotment (allot record free regions)).slots ≤ free := by
  induction regions generalizing free with
  | nil => exact Nat.zero_le free
  | cons region rest ih =>
    rw [allot]
    split
    next fits =>
      have others := ih (free - region.entries)
      rw [ofAllotment_granted]
      dsimp only
      omega
    next =>
      rw [ofAllotment_refused]
      exact ih free

/-- Every region is either configured or skipped. -/
theorem PmpReport.configured_add_skipped (allotment : List (Region × Bool)) :
    (ofAllotment allotment).configured + (ofAllotment allotment).skipped = allotment.length := by
  have others : allotment.countP (! ·.2) = allotment.countP fun decision => ¬decision.2 = true := by
    apply List.countP_congr
    intro decision _
    simp
  rw [List.length_eq_countP_add_countP (·.2), ofAllotment]
  exact congrArg _ others

/-- Handing out all entries that there are gives the report of the plan. -/
theorem PmpReport.ofAllotment_allot (record : FeatureRecord) (regions : List Region) :
    ofAllotment (allot record (min record.pmpCount.toNat 64) regions) = {
      slots := (plan record 0 regions).length
      configured := (placed record 0 regions).length
      skipped := regions.length - (placed record 0 regions).length } := by
  have granted := filter_allot record 0 regions
  rw [Nat.sub_zero] at granted
  have configured : (ofAllotment (allot record (min record.pmpCount.toNat 64) regions)).configured =
      (placed record 0 regions).length := by
    rw [ofAllotment, List.countP_eq_length_filter, ← granted, List.length_map]
  have total := configured_add_skipped (allot record (min record.pmpCount.toNat 64) regions)
  rw [length_allot] at total
  have slots : (ofAllotment (allot record (min record.pmpCount.toNat 64) regions)).slots =
      (plan record 0 regions).length := by
    rw [ofAllotment, ← sum_entries_placed, ← granted, List.map_map]
    rfl
  rw [← slots, ← configured, ← total, Nat.add_sub_cancel_left]

/-- A plan keeps to the entries that there are. -/
theorem length_plan_le (record : FeatureRecord) (regions : List Region) :
    (plan record 0 regions).length ≤ min record.pmpCount.toNat 64 := by
  have bounded := PmpReport.slots_allot_le record (min record.pmpCount.toNat 64) regions
  rwa [PmpReport.ofAllotment_allot] at bounded

end HartBoot
