import HartBoot.Proofs.Acceptance
import HartBoot.Proofs.Accounting

/-! # Regions that are rounded away

A block that is smaller than the granularity is refused, so the entry of a configured block always
matches the base of the block. A range is never refused. Both of its bounds are rounded down, and when
they meet, the range takes two entries that match nothing. What is configured therefore protects
something exactly when no configured range is rounded away.
-/

namespace HartBoot

/-- Something is left of a region at the given granularity: a block is no smaller than that, and the
bounds of a range stay apart when they are rounded down. -/
def Region.Survives (region : Region) (unit : Nat) : Prop :=
  match region.extent with
  | .napot order => unit ≤ 2 ^ order
  | .tor size =>
    region.base.toNat / unit < min (region.base.toNat + size.toNat) (2 ^ 64 - 1) / unit

instance (region : Region) (unit : Nat) : Decidable (region.Survives unit) :=
  match region with
  | ⟨_, .napot order, _⟩ => inferInstanceAs (Decidable (unit ≤ 2 ^ order))
  | ⟨base, .tor size, _⟩ => inferInstanceAs (Decidable
      (base.toNat / unit < min (base.toNat + size.toNat) (2 ^ 64 - 1) / unit))

/-- The entries of the given settings match a byte of a region. -/
def Hart.ProtectsPart (hart : Hart) (settings : List PmpSetting) (region : Region) : Prop :=
  ∃ byte : Word, region.Contains byte.toNat ∧
    ∃ setting ∈ settings, (hart.reading setting.entry).covers byte = true

variable {record : FeatureRecord} {region : Region} {regions : List Region} {taken : Nat}
  {settings : List PmpSetting}

/-- The regions with a placement are those with a verdict that says so. -/
theorem mem_placed_iff : region ∈ placed record taken regions ↔
    ∃ settings, Verdict.placed region settings ∈ Verdict.ofRegions record taken regions := by
  rw [placed, List.mem_filterMap]
  constructor
  · rintro ⟨verdict, member, covered⟩
    cases verdict with
    | placed other settings =>
      obtain rfl : other = region := Option.some.inj covered
      exact ⟨settings, member⟩
    | _ => cases covered
  · rintro ⟨settings, member⟩
    exact ⟨_, member, rfl⟩

namespace Region

variable {unit : Nat}

/-- A block guards its own base, whatever the granularity. -/
theorem guards_base_of_block {order : Nat} (block : region.extent = .napot order) :
    region.Contains region.base.toNat ∧ region.guards unit region.base.toNat = true := by
  have positive : 0 < 2 ^ order := Nat.two_pow_pos order
  constructor
  · rw [Contains, size, block]
    dsimp only
    omega
  · simp only [guards, block, beq_self_eq_true]

/-- A byte of a range is guarded exactly if the bounds of the range stay apart, and then its base is
such a byte. -/
theorem exists_guards_range_iff {size : Word} (range : region.extent = .tor size)
    (positive : 0 < unit) :
    (∃ byte : Word, region.Contains byte.toNat ∧ region.guards unit byte.toNat = true) ↔
      region.Survives unit := by
  simp only [Contains, Region.size, guards, Survives, range, Bool.and_eq_true, decide_eq_true_eq]
  constructor
  · rintro ⟨byte, ⟨above, -⟩, -, below⟩
    exact (Nat.div_lt_iff_lt_mul positive).mpr (Nat.lt_of_le_of_lt above below)
  · intro apart
    have below := (Nat.div_lt_iff_lt_mul positive).mp apart
    have rounded := Nat.div_mul_le_self (min (region.base.toNat + size.toNat) (2 ^ 64 - 1)) unit
    refine ⟨region.base, ⟨le_refl _, ?_⟩, Nat.div_mul_le_self _ _, below⟩
    omega

end Region

/-- A block that gets an entry is not rounded away. -/
theorem Placement.survives_of_block {order : Nat} (block : region.extent = .napot order)
    (placement : Placement record taken region settings)
    (power : record.pmpGran = 0 ∨ ∃ exponent, record.pmpGran.toNat = 2 ^ exponent) :
    region.Survives (max 4 record.pmpGran.toNat) := by
  rcases placement.kinds with
    ⟨given, inRange, extent, low, high, coarse, -, -⟩ | ⟨size, inRange, range, -⟩
  · simp only [Region.Survives, extent]
    apply Nat.le_of_not_lt
    intro small
    exact Nat.not_lt.mpr coarse ((Protection.lt_trailingZeros_granule_iff power).mpr small)
  · rw [block] at range
    cases range

namespace Hart

variable {hart : Hart}

/-- The entries of a region match the bytes that the region guards. -/
theorem covers_placement (placement : Placement record taken region settings)
    (power : record.pmpGran = 0 ∨ ∃ exponent, record.pmpGran.toNat = 2 ^ exponent)
    (held : hart.csrs.Holds Word.ones settings) (byte : Word) :
    (∃ setting ∈ settings, (hart.reading setting.entry).covers byte = true) ↔
      region.guards (max 4 record.pmpGran.toNat) byte.toNat = true := by
  rw [← isSome_answer?_iff, answer?_placement placement power held]
  split
  next guarded => simp [guarded]
  next spared => simp [spared]

theorem protectsPart_iff_survives (placement : Placement record taken region settings)
    (power : record.pmpGran = 0 ∨ ∃ exponent, record.pmpGran.toNat = 2 ^ exponent)
    (held : hart.csrs.Holds Word.ones settings) :
    hart.ProtectsPart settings region ↔ region.Survives (max 4 record.pmpGran.toNat) := by
  simp only [ProtectsPart, covers_placement placement power held]
  cases extent : region.extent with
  | napot order =>
    obtain ⟨contained, guarded⟩ := Region.guards_base_of_block extent
    exact iff_of_true ⟨region.base, contained, guarded⟩ (placement.survives_of_block extent power)
  | tor size => exact Region.exists_guards_range_iff extent (by omega)

end Hart

namespace BootM

variable {machine : Machine}

/-- Configuration leaves the plan in the entries of a hart that hold all address bits, and reports on
the regions that have a placement in it. -/
theorem configure_holds_plan (equipped : machine.hart.csrs.HasPmp Word.ones)
    (numbered : ∃ id, machine.hart.csrs.value? .mhartid = some id) (record : FeatureRecord)
    (domain : Domain) :
    let configured := placed record 0 domain.regions
    ∃ after, configure record domain machine = .ok {
        slots := (configured.map Region.entries).sum
        configured := configured.length
        skipped := domain.regions.length - configured.length } after ∧
      after.hart.csrs.Holds Word.ones (plan record 0 domain.regions) := by
  intro configured
  obtain ⟨id, numbered⟩ := numbered
  obtain ⟨after, ran, registers, -⟩ := gives_configure equipped numbered record domain machine rfl
  refine ⟨after, ?_, ?_⟩
  · rw [sum_entries_placed]
    exact ran
  · rw [registers]
    exact equipped.holds_plan record domain.regions

/-- On a hart whose entries hold all address bits, the entries of a configured region match a byte of
it if and only if the region is not rounded away at the granularity. So all configured regions are
protected in part, and all regions that are rounded away are skipped, if and only if no range that is
configured is rounded away. -/
theorem configured_protects_iff_survives (equipped : machine.hart.csrs.HasPmp Word.ones)
    (numbered : ∃ id, machine.hart.csrs.value? .mhartid = some id)
    (power : record.pmpGran = 0 ∨ ∃ exponent, record.pmpGran.toNat = 2 ^ exponent)
    (domain : Domain) :
    let unit := max 4 record.pmpGran.toNat
    let verdicts := Verdict.ofRegions record 0 domain.regions
    let configured := placed record 0 domain.regions
    ∃ after, configure record domain machine = .ok {
        slots := (configured.map Region.entries).sum
        configured := configured.length
        skipped := domain.regions.length - configured.length } after ∧
      (∀ region settings, Verdict.placed region settings ∈ verdicts →
        (after.hart.ProtectsPart settings region ↔ region.Survives unit)) ∧
      (((∀ region settings, Verdict.placed region settings ∈ verdicts →
          after.hart.ProtectsPart settings region) ∧
        ∀ region ∈ domain.regions, ¬region.Survives unit → region ∉ configured) ↔
        ∀ region ∈ configured, (∃ size, region.extent = .tor size) → region.Survives unit) := by
  intro unit verdicts configured
  obtain ⟨after, ran, held⟩ := configure_holds_plan equipped numbered record domain
  have protects (region : Region) (settings : List PmpSetting)
      (member : Verdict.placed region settings ∈ verdicts) :
      after.hart.ProtectsPart settings region ↔ region.Survives unit := by
    obtain ⟨first, ⟨placement⟩⟩ := exists_placement member
    apply Hart.protectsPart_iff_survives placement power
    intro setting listed
    exact held setting (List.mem_flatMap.mpr ⟨_, member, listed⟩)
  refine ⟨after, ran, protects, ?_⟩
  constructor
  · rintro ⟨guarded, -⟩ region member -
    obtain ⟨settings, verdict⟩ := mem_placed_iff.mp member
    exact (protects region settings verdict).mp (guarded region settings verdict)
  · intro ranges
    have survives (region : Region) (member : region ∈ configured) : region.Survives unit := by
      obtain ⟨settings, verdict⟩ := mem_placed_iff.mp member
      obtain ⟨first, ⟨placement⟩⟩ := exists_placement verdict
      cases extent : region.extent with
      | napot order => exact placement.survives_of_block extent power
      | tor size => exact ranges region member ⟨size, extent⟩
    constructor
    · intro region settings verdict
      exact (protects region settings verdict).mpr
        (survives region (mem_placed_iff.mpr ⟨settings, verdict⟩))
    · intro region _ lost member
      exact lost (survives region member)

/-- Of a range that crosses a boundary of the granularity something is left. The block behind it is
too small to get an entry. -/
theorem configured_protects_iff_survives_crossing :
    let machine : Machine := ⟨Hart.numbered.withPmp Word.ones, .blank, {}⟩
    let record : FeatureRecord := { pmpCount := 16, pmpGran := 4096, pmpAddrBits := 54 }
    let crossing : Region := { base := 0x80000f00, extent := .tor 0x200, flags := ⟨0b011⟩ }
    let small : Region := { base := 0x80001000, extent := .napot 11, flags := ⟨0b111⟩ }
    let domain : Domain := { name := "crossing", bootHart := 1, regions := [crossing, small] }
    (machine.hart.csrs.HasPmp Word.ones ∧
      (∃ id, machine.hart.csrs.value? .mhartid = some id) ∧
      ∃ exponent, record.pmpGran.toNat = 2 ^ exponent) ∧
    ∃ after settings,
      configure record domain machine = .ok { slots := 2, configured := 1, skipped := 1 } after ∧
      Verdict.placed crossing settings ∈ Verdict.ofRegions record 0 domain.regions ∧
      after.hart.ProtectsPart settings crossing := by
  intro machine record crossing small domain
  have equipped : machine.hart.csrs.HasPmp Word.ones := Hart.hasPmp_withPmp Hart.numbered Word.ones
  have numbered : ∃ id, machine.hart.csrs.value? .mhartid = some id :=
    ⟨0, Hart.value?_numbered_withPmp Word.ones⟩
  have power : ∃ exponent, record.pmpGran.toNat = 2 ^ exponent := ⟨12, rfl⟩
  have chosen : placed record 0 domain.regions = [crossing] := by decide +kernel
  obtain ⟨after, ran, protects, -⟩ :=
    configured_protects_iff_survives equipped numbered (.inr power) domain
  obtain ⟨settings, verdict⟩ := mem_placed_iff.mp (chosen ▸ List.mem_singleton_self crossing)
  refine ⟨⟨equipped, numbered, power⟩, after, settings, ?_, verdict, ?_⟩
  · rw [ran, chosen]
    rfl
  · exact (protects crossing settings verdict).mpr (by decide +kernel)

/-- A range between two boundaries of the granularity is configured, but its entries match nothing:
both bounds are rounded down to the same address. -/
theorem configured_rounded_away :
    let machine : Machine := ⟨Hart.numbered.withPmp Word.ones, .blank, {}⟩
    let record : FeatureRecord := { pmpCount := 16, pmpGran := 4096, pmpAddrBits := 54 }
    let region : Region := { base := 0x80000100, extent := .tor 0x200, flags := ⟨0b011⟩ }
    let domain : Domain := { name := "small", bootHart := 1, regions := [region] }
    0 < region.size ∧ ¬region.Survives 4096 ∧
    ∃ after settings,
      configure record domain machine = .ok { slots := 2, configured := 1, skipped := 0 } after ∧
      Verdict.ofRegions record 0 domain.regions = [.placed region settings] ∧
      ¬after.hart.ProtectsPart settings region := by
  intro machine record region domain
  have lost : ¬region.Survives 4096 := by decide +kernel
  have chosen : placed record 0 domain.regions = [region] := by decide +kernel
  have verdicts : Verdict.ofRegions record 0 domain.regions =
      [.placed region [startSetting record region 0, limitSetting record region 1]] := by
    decide +kernel
  have equipped : machine.hart.csrs.HasPmp Word.ones := Hart.hasPmp_withPmp Hart.numbered Word.ones
  have numbered : ∃ id, machine.hart.csrs.value? .mhartid = some id :=
    ⟨0, Hart.value?_numbered_withPmp Word.ones⟩
  obtain ⟨after, ran, held⟩ := configure_holds_plan equipped numbered record domain
  obtain ⟨first, ⟨placement⟩⟩ := exists_placement (verdicts ▸ List.mem_singleton_self _)
  rw [plan, verdicts] at held
  refine ⟨by decide, lost, after, _, ?_, verdicts, ?_⟩
  · rw [ran, chosen]
    rfl
  · rw [Hart.protectsPart_iff_survives placement (.inr ⟨12, rfl⟩) held]
    exact lost

end BootM

end HartBoot
