import HartBoot.Proofs.Enforcement
import HartBoot.Proofs.Survey

/-! # Entries that hold few address bits

An address register keeps the low bits of what is written to it. For a block that starts within
the addresses that the hart has, this is harmless: either the address fits, or the block takes in
every address of the hart and so does what is left of its entry. The bounds of a range are not
compared with the addresses of the hart, and each of them is kept as a remainder. The entries of a
range then match the addresses of the range only if it ends below the last address, or if it lies
beyond all addresses and its bounds do not change places.
-/

namespace HartBoot

namespace Region

/-- Number of bytes of a region. -/
def size (region : Region) : Nat :=
  match region.extent with
  | .napot order => 2 ^ order
  | .tor size => size.toNat

/-- Whether a byte lies in a region. -/
def Contains (region : Region) (byte : Nat) : Prop :=
  region.base.toNat ≤ byte ∧ byte < region.base.toNat + region.size

instance (region : Region) (byte : Nat) : Decidable (region.Contains byte) :=
  inferInstanceAs (Decidable (_ ∧ _))

/-- A block starts at a multiple of its size. A range is made of words, and ends within the address
space. -/
def Aligned (region : Region) : Prop :=
  match region.extent with
  | .napot order => 2 ^ order ∣ region.base.toNat
  | .tor size => 4 ∣ region.base.toNat ∧ 4 ∣ size.toNat ∧ region.base.toNat + size.toNat < 2 ^ 64

/-- Whether the bounds of a region survive being cut to the given number of word address bits. A
range has to end below the last word, or to start past it with bounds that stay in order. -/
def Fits (region : Region) (bits : Nat) : Prop :=
  match region.extent with
  | .napot _ => True
  | .tor size =>
    let start := region.base.toNat / 4
    let limit := (region.base.toNat + size.toNat) / 4
    limit < 2 ^ bits ∨ 2 ^ bits ≤ start ∧ limit % 2 ^ bits ≤ start % 2 ^ bits

end Region

namespace Protection

variable {bits order : Nat} {base byte : Word} {reading : PmpReading} {flags : PmpFlags}

theorem toNat_addressMax (inside : bits < 64) : (addressMax bits).toNat = 2 ^ bits - 1 := by
  have whole : 2 ^ 64 = 2 ^ bits * 2 ^ (64 - bits) := by
    rw [← Nat.pow_add, Nat.add_sub_cancel' inside.le]
  have positive : 0 < 2 ^ bits := Nat.two_pow_pos bits
  have step : 0 < 2 ^ (64 - bits) := Nat.two_pow_pos _
  have ones : Word.ones.toNat = 2 ^ 64 - 1 := rfl
  rw [addressMax, Word.toNat_shiftRight, ones, Word.width, whole]
  obtain ⟨count, same⟩ := Nat.exists_eq_add_of_lt positive
  rw [same, Nat.zero_add, Nat.add_sub_cancel, Nat.add_mul, Nat.one_mul, Nat.add_sub_assoc step,
    Nat.mul_comm, Nat.mul_add_div step, Nat.div_eq_of_lt (by omega), Nat.add_zero]

/-- The address for a block fits when the block is no larger than the addresses of the hart. -/
theorem blockAddress_lt (low : 2 ≤ order) (high : order < 64) (small : order ≤ bits + 2)
    (reachable : base.toNat / 4 < 2 ^ bits) : (blockAddress base order).2.toNat < 2 ^ bits := by
  rcases Nat.eq_or_lt_of_le low with rfl | above
  · have smallest : blockAddress base 2 = (PmpFlags.na4, base >>> addressShift) := rfl
    rw [smallest, toNat_addressShift]
    exact reachable
  · obtain ⟨ones, rfl⟩ := Nat.exists_eq_add_of_le' above
    obtain ⟨rest, rfl⟩ := Nat.exists_eq_add_of_le (show ones + 1 ≤ bits by omega)
    have split : 2 ^ (ones + 1 + rest) = 2 ^ rest * 2 ^ (ones + 1) := by
      rw [Nat.pow_add, Nat.mul_comm]
    have quotient : base.toNat / 2 ^ (ones + 3) = base.toNat / 4 / 2 ^ (ones + 1) := by
      rw [Nat.div_div_eq_div_mul]
      congr 1
      ring
    have less : base.toNat / 2 ^ (ones + 3) + 1 ≤ 2 ^ rest := by
      rw [quotient]
      apply Nat.div_lt_of_lt_mul
      rw [Nat.mul_comm, ← split]
      exact reachable
    have bound := Nat.mul_le_mul_right (2 ^ (ones + 1)) less
    rw [Nat.add_mul, Nat.one_mul] at bound
    have half : 2 ^ ones - 1 < 2 ^ (ones + 1) := by
      have positive : 0 < 2 ^ ones := Nat.two_pow_pos ones
      rw [Nat.pow_succ]
      omega
    rw [(toNat_blockAddress base above high).2, split, Nat.add_sub_cancel]
    exact Nat.lt_of_lt_of_le (Nat.add_lt_add_left half _) bound

/-- A run of ones is cut to a shorter one. -/
theorem ones_mod {longer shorter : Nat} (fewer : shorter ≤ longer) :
    (2 ^ longer - 1) % 2 ^ shorter = 2 ^ shorter - 1 := by
  obtain ⟨rest, rfl⟩ := Nat.exists_eq_add_of_le fewer
  have positive : 0 < 2 ^ shorter := Nat.two_pow_pos shorter
  have some : 0 < 2 ^ rest := Nat.two_pow_pos rest
  obtain ⟨count, same⟩ := Nat.exists_eq_add_of_lt some
  rw [Nat.pow_add, same, Nat.zero_add, Nat.mul_add, Nat.mul_one, Nat.add_sub_assoc positive,
    Nat.mul_add_mod]
  exact Nat.mod_eq_of_lt (by omega)

/-- What is left of a block that takes in all addresses of the hart still matches them all. -/
theorem covers_wide_block (inside : bits < 64) (high : order ≤ 64) (large : bits + 2 < order)
    (octet : reading.octet = (flags.withoutMatching ∪ (blockAddress 0 order).1).bits)
    (address : reading.address = (blockAddress 0 order).2 &&& Word.lowMask bits)
    (within : byte.toNat < 2 ^ (bits + 2)) : reading.covers byte = true := by
  have mode := congrArg MatchMode.ofOctet octet
  rw [PmpFlags.ofOctet_union] at mode
  have form : reading.address.toNat = 0 * 2 ^ (bits + 1) + (2 ^ bits - 1) := by
    rw [address, Word.toNat_and_lowMask _ inside, Nat.zero_mul, Nat.zero_add]
    rcases Nat.eq_or_lt_of_le high with rfl | below
    · exact ones_mod inside.le
    · have run := (toNat_blockAddress 0 (show 2 < order by omega) below).2
      rw [show (0 : Word).toNat = 0 from rfl, Nat.zero_div, Nat.zero_mul, Nat.zero_add] at run
      rw [run]
      exact ones_mod (by omega)
  have napot : (blockAddress 0 order).1 = PmpFlags.napot := by
    rcases Nat.eq_or_lt_of_le high with rfl | below
    · rfl
    · exact (toNat_blockAddress 0 (show 2 < order by omega) below).1
  rw [napot] at mode
  rw [PmpReading.covers_iff_of_napot mode inside form]
  apply Nat.div_eq_of_lt
  exact within.trans (Nat.pow_lt_pow_right (by decide) (by omega))

end Protection

/-- Cutting both bounds of a range of words keeps the words below the cut exactly when the range ends
below the cut, or starts past it with bounds that stay in order. -/
theorem cut_range_iff {start limit cut : Nat} (ordered : start ≤ limit) (positive : 0 < cut) :
    (∀ word < cut, (start % cut ≤ word ∧ word < limit % cut) ↔ (start ≤ word ∧ word < limit)) ↔
      limit < cut ∨ cut ≤ start ∧ limit % cut ≤ start % cut := by
  have startCut := Nat.mod_lt start positive
  have limitCut := Nat.mod_lt limit positive
  constructor
  · intro same
    by_contra neither
    push Not at neither
    obtain ⟨high, moved⟩ := neither
    by_cases past : cut ≤ start
    · have hit := (same (start % cut) startCut).mp ⟨le_refl _, moved past⟩
      omega
    · have last := (same (cut - 1) (by omega)).mpr ⟨by omega, by omega⟩
      omega
  · rintro (low | ⟨past, moved⟩) word below
    · rw [Nat.mod_eq_of_lt low, Nat.mod_eq_of_lt (Nat.lt_of_le_of_lt ordered low)]
    · constructor
      · intro hit
        omega
      · intro hit
        omega

namespace Region

variable {region : Region} {order : Nat} {size : Word} {byte : Nat}

theorem contains_block_iff (block : region.extent = .napot order) (aligned : region.Aligned) :
    region.Contains byte ↔ byte / 2 ^ order = region.base.toNat / 2 ^ order := by
  simp only [Aligned, block] at aligned
  obtain ⟨quotient, multiple⟩ := aligned
  have positive : 0 < 2 ^ order := Nat.two_pow_pos order
  rw [Contains, Region.size, block, multiple, Nat.mul_div_cancel_left _ positive,
    Nat.div_eq_iff positive]
  dsimp only
  rw [Nat.mul_comm quotient]
  omega

theorem contains_range_iff (range : region.extent = .tor size) (aligned : region.Aligned) :
    region.Contains byte ↔ region.base.toNat / 4 ≤ byte / 4 ∧
      byte / 4 < (region.base.toNat + size.toNat) / 4 := by
  simp only [Aligned, range] at aligned
  obtain ⟨⟨start, first⟩, ⟨words, count⟩, -⟩ := aligned
  rw [Contains, Region.size, range]
  dsimp only
  omega

end Region

namespace Hart

variable {hart : Hart} {record : FeatureRecord} {region : Region} {bits taken : Nat}
  {settings : List PmpSetting} {byte : Word}

theorem isSome_answer?_iff (hart : Hart) (settings : List PmpSetting) (byte : Word) :
    (hart.answer? settings byte).isSome = true ↔
      ∃ setting ∈ settings, (hart.reading setting.entry).covers byte = true := by
  rw [answer?, Option.isSome_map, List.find?_isSome]

/-- The bounds of a range of words, as the entries of a narrow hart hold them. -/
theorem covers_narrow_range {inRange : taken + 1 < 64} {size : Word} (inside : bits < 64)
    (unit : record.pmpGran = 4) (range : region.extent = .tor size) (aligned : region.Aligned)
    (held : hart.csrs.Holds (Word.lowMask bits) [startSetting record region ⟨taken, entry_lt_of_next inRange⟩,
      limitSetting record region ⟨taken + 1, inRange⟩]) (byte : Word) :
    (∃ setting ∈ [startSetting record region ⟨taken, entry_lt_of_next inRange⟩,
        limitSetting record region ⟨taken + 1, inRange⟩],
      (hart.reading setting.entry).covers byte = true) ↔
      region.base.toNat / 4 % 2 ^ bits ≤ byte.toNat / 4 ∧
        byte.toNat / 4 < (region.base.toNat + size.toNat) / 4 % 2 ^ bits := by
  simp only [Region.Aligned, range] at aligned
  obtain ⟨-, -, fits⟩ := aligned
  have power : record.pmpGran = 0 ∨ ∃ exponent, record.pmpGran.toNat = 2 ^ exponent :=
    .inr ⟨2, by rw [unit]; rfl⟩
  have words : max 4 record.pmpGran.toNat = 4 := by rw [unit]; rfl
  have lower := Protection.toNat_alignedWord power region.base
  have upper := Protection.toNat_alignedWord power region.limit
  rw [words] at lower upper
  rw [Protection.toNat_limit range, min_eq_left (by omega)] at upper
  rw [← isSome_answer?_iff, answer?_range held byte, Word.toNat_and_lowMask _ inside,
    Word.toNat_and_lowMask _ inside]
  have start : (startSetting record region ⟨taken, entry_lt_of_next inRange⟩).address.toNat =
      region.base.toNat / 4 := by
    simp only [startSetting]
    omega
  have limit : (limitSetting record region ⟨taken + 1, inRange⟩).address.toNat =
      (region.base.toNat + size.toNat) / 4 := by
    simp only [limitSetting]
    omega
  rw [start, limit]
  split
  next hit => simp [hit]
  next miss => simp [miss]

/-- What is left of the entry of a block still matches the addresses of the block. -/
theorem covers_narrow_block {order : Nat} {entry : Fin 64} (inside : bits < 62)
    (low : 2 ≤ order) (high : order ≤ 64) (block : region.extent = .napot order)
    (aligned : region.Aligned) (reachable : region.base.toNat / 4 < 2 ^ bits)
    (held : hart.csrs.Holds (Word.lowMask bits) [blockSetting region order entry])
    (within : byte.toNat < 2 ^ (bits + 2)) :
    (∃ setting ∈ [blockSetting region order entry],
      (hart.reading setting.entry).covers byte = true) ↔ region.Contains byte.toNat := by
  have matched (reading : PmpReading)
      (octet : reading.octet = (blockSetting region order entry).config.bits)
      (address : reading.address =
        (Protection.blockAddress region.base order).2 &&& Word.lowMask bits) :
      reading.covers byte = true ↔ region.Contains byte.toNat := by
    rw [Region.contains_block_iff block aligned]
    by_cases small : order ≤ bits + 2
    · have fits := Protection.blockAddress_lt low (by omega) small reachable
      apply Protection.covers_block low high octet
      rw [address]
      apply BitVec.eq_of_toNat_eq
      rw [Word.toNat_and_lowMask _ (by omega), Nat.mod_eq_of_lt fits]
    · have large : bits + 2 < order := not_le.mp small
      have wider : 2 ^ (bits + 2) < 2 ^ order := Nat.pow_lt_pow_right (by decide) large
      have bottom : region.base = 0 := by
        simp only [Region.Aligned, block] at aligned
        apply BitVec.eq_of_toNat_eq
        apply Nat.eq_zero_of_dvd_of_lt aligned
        rw [Nat.pow_add] at wider
        omega
      rw [blockSetting, bottom] at octet
      rw [bottom] at address ⊢
      have whole := Protection.covers_wide_block (by omega) high large octet address within
      rw [whole, Nat.div_eq_of_lt (within.trans wider)]
      simp
  rw [← isSome_answer?_iff, answer?_block held byte matched]
  split
  next hit => simp [hit]
  next miss => simp [miss]

/-- A placement on a narrow hart matches the addresses of its region exactly when the region fits. -/
theorem covers_placement_iff (placement : Placement record taken region settings)
    (inside : bits < 62) (unit : record.pmpGran = 4) (width : record.pmpAddrBits.toNat = bits)
    (aligned : region.Aligned) (held : hart.csrs.Holds (Word.lowMask bits) settings) :
    (∀ byte : Word, byte.toNat < 2 ^ (bits + 2) →
      ((∃ setting ∈ settings, (hart.reading setting.entry).covers byte = true) ↔
        region.Contains byte.toNat)) ↔ region.Fits bits := by
  rcases placement.kinds with
    ⟨order, inRange, block, low, high, -, reachable, rfl⟩ | ⟨size, inRange, range, rfl⟩
  · simp only [Region.Fits, block, iff_true]
    intro byte within
    have below := BitVec.lt_def.mp reachable
    rw [width, Protection.toNat_addressMax (by omega), Protection.toNat_addressShift] at below
    exact covers_narrow_block inside low high block aligned (by omega) held within
  · have matched := covers_narrow_range (by omega) unit range aligned held
    have ordered : region.base.toNat / 4 ≤ (region.base.toNat + size.toNat) / 4 := by omega
    have words : 2 ^ (bits + 2) = 4 * 2 ^ bits := by rw [Nat.pow_add, Nat.mul_comm]
    have bound : 2 ^ bits ≤ 2 ^ 61 := Nat.pow_le_pow_right (by decide) (by omega)
    simp only [Region.Fits, range, matched, Region.contains_range_iff range aligned]
    rw [← cut_range_iff ordered (Nat.two_pow_pos bits)]
    constructor
    · intro bytes word below
      have address : (BitVec.ofNat 64 (4 * word)).toNat = 4 * word := by
        rw [BitVec.toNat_ofNat]
        omega
      have same := bytes (BitVec.ofNat 64 (4 * word)) (by omega)
      rwa [address, Nat.mul_div_cancel_left _ (by decide)] at same
    · intro bywords byte within
      exact bywords (byte.toNat / 4) (by omega)

end Hart

namespace BootM

variable {bits : Nat} {machine : Machine}

theorem addressPattern_and_lowMask (bounded : bits ≤ 54) :
    HartM.addressPattern &&& Word.lowMask bits = Word.lowMask bits := by
  have whole : HartM.addressPattern = Word.lowMask 54 := rfl
  apply BitVec.eq_of_toNat_eq
  rw [whole, Word.toNat_and_lowMask _ (by omega), Word.toNat_lowMask (by decide),
    Word.toNat_lowMask (by omega)]
  exact Protection.ones_mod bounded

/-- Detection on a narrow hart tells how many address bits it has, and configuration with the
detected record leaves the plan in the entries, as far as they can hold it. -/
theorem detect_configure_narrow (positive : 1 ≤ bits) (bounded : bits ≤ 54)
    (ready : machine.Ready (Word.lowMask bits)) (domain : Domain) :
    ∃ record middle report after, onHart HartM.detect machine = .ok record middle ∧
      (record.pmpCount = 64 ∧ record.pmpGran = 4 ∧ record.pmpAddrBits.toNat = bits) ∧
      configure record domain middle = .ok report after ∧
      report.configured = (placed record 0 domain.regions).length ∧
      after.hart.csrs.Holds (Word.lowMask bits) (plan record 0 domain.regions) := by
  obtain ⟨hart, area, shared⟩ := machine
  have held := addressPattern_and_lowMask bounded
  obtain ⟨low, described⟩ := ready.equipped.survey_eq positive (by omega) held
  obtain ⟨detected, ran, registers, quiet⟩ :=
    HartM.gives_detect hart.csrs (.inr low) hart rfl ready.steady
  have probed := hart.csrs.evolves_probed
  rw [← registers] at probed
  have left : Machine.Ready (Word.lowMask bits) ⟨detected, area, shared⟩ :=
    ready.evolve probed quiet
  obtain ⟨id, numbered⟩ := left.numbered
  obtain ⟨after, configured, contents, -⟩ :=
    gives_configure left.equipped numbered hart.csrs.survey domain _ rfl
  refine ⟨_, _, _, after, ?_, described, configured, rfl, ?_⟩
  · simp only [onHart, ran]
  · rw [contents]
    exact left.equipped.holds_plan hart.csrs.survey domain.regions

/-- On a hart whose entries hold the lowest bits of an address, detection tells how many there are,
and configuration succeeds. Among the addresses that the hart has, the entries of a configured
region match those of the region and no others if and only if the region fits these bits. -/
theorem configured_exact_iff_fits (positive : 1 ≤ bits) (bounded : bits ≤ 54)
    (steady : machine.hart.outages = [])
    (equipped : machine.hart.csrs.HasPmp (Word.lowMask bits))
    (numbered : ∃ id, machine.hart.csrs.value? .mhartid = some id) (domain : Domain)
    (aligned : ∀ region ∈ domain.regions, region.Aligned) :
    ∃ record middle report after, onHart HartM.detect machine = .ok record middle ∧
      (record.pmpGran = 4 ∧ record.pmpAddrBits.toNat = bits) ∧
      configure record domain middle = .ok report after ∧
      report.configured = (placed record 0 domain.regions).length ∧
      ∀ region settings,
        Verdict.placed region settings ∈ Verdict.ofRegions record 0 domain.regions →
        ((∀ byte : Word, byte.toNat < 2 ^ (bits + 2) →
          ((∃ setting ∈ settings, (after.hart.reading setting.entry).covers byte = true) ↔
            region.Contains byte.toNat)) ↔ region.Fits bits) := by
  obtain ⟨record, middle, report, after, detected, ⟨-, unit, width⟩, configured, counted, held⟩ :=
    detect_configure_narrow positive bounded ⟨equipped, numbered, steady⟩ domain
  refine ⟨record, middle, report, after, detected, ⟨unit, width⟩, configured, counted, ?_⟩
  intro region settings member
  obtain ⟨first, ⟨placement⟩⟩ := exists_placement member
  have listed : region ∈ domain.regions := by
    apply (placed_sublist record 0 domain.regions).subset
    exact List.mem_filterMap.mpr ⟨_, member, rfl⟩
  apply Hart.covers_placement_iff placement (by omega) unit width (aligned region listed)
  intro setting inside
  exact held setting (List.mem_flatMap.mpr ⟨_, member, inside⟩)

end BootM

/-- A machine whose hart holds addresses below 16 GiB. -/
def Machine.narrow : Machine := ⟨Hart.numbered.withPmp (Word.lowMask 32), .blank, {}⟩

namespace BootM

private theorem ready_narrow : Machine.narrow.Ready (Word.lowMask 32) where
  equipped := Hart.hasPmp_withPmp Hart.numbered (Word.lowMask 32)
  numbered := ⟨0, Hart.value?_numbered_withPmp (Word.lowMask 32)⟩
  steady := by decide +kernel

theorem configured_exact_iff_fits_narrow :
    let domain : Domain := { name := "whole", bootHart := 0, regions := [
      { base := 0x80000000, extent := .tor 0x1804, flags := ⟨0b001⟩ },
      { base := 0, extent := .napot 64, flags := ⟨0b111⟩ }] }
    (Machine.narrow.hart.outages = [] ∧ Machine.narrow.hart.csrs.HasPmp (Word.lowMask 32) ∧
      (∃ id, Machine.narrow.hart.csrs.value? .mhartid = some id) ∧
      ∀ region ∈ domain.regions, region.Aligned) ∧
    ∃ record middle report after, onHart HartM.detect Machine.narrow = .ok record middle ∧
      (record.pmpGran = 4 ∧ record.pmpAddrBits.toNat = 32) ∧
      configure record domain middle = .ok report after ∧
      report.configured = (placed record 0 domain.regions).length ∧
      ∀ region settings,
        Verdict.placed region settings ∈ Verdict.ofRegions record 0 domain.regions →
        ((∀ byte : Word, byte.toNat < 2 ^ (32 + 2) →
          ((∃ setting ∈ settings, (after.hart.reading setting.entry).covers byte = true) ↔
            region.Contains byte.toNat)) ↔ region.Fits 32) := by
  intro domain
  have aligned : ∀ region ∈ domain.regions, region.Aligned := by
    simp only [domain, List.mem_cons, List.not_mem_nil, or_false]
    rintro region (rfl | rfl)
    · simp only [Region.Aligned]
      decide
    · exact Nat.dvd_zero _
  obtain ⟨equipped, numbered, steady⟩ := ready_narrow
  exact ⟨⟨steady, equipped, numbered, aligned⟩,
    configured_exact_iff_fits (by decide) (by decide) steady equipped numbered domain aligned⟩

/-- A range that ends exactly at the top of the addresses is configured, but not matched: what its
entries hold of the end is zero. -/
theorem configured_unmatched_at_top :
    let region : Region := { base := 0x200000000, extent := .tor 0x200000000, flags := ⟨0b11⟩ }
    let domain : Domain := { name := "top", bootHart := 1, regions := [region] }
    region.Aligned ∧
    ∃ record middle report after settings, onHart HartM.detect Machine.narrow = .ok record middle ∧
      (record.pmpGran = 4 ∧ record.pmpAddrBits.toNat = 32) ∧
      configure record domain middle = .ok report after ∧ report.configured = 1 ∧
      Verdict.ofRegions record 0 domain.regions = [.placed region settings] ∧
      ¬ ∀ byte : Word, byte.toNat < 2 ^ (32 + 2) →
        ((∃ setting ∈ settings, (after.hart.reading setting.entry).covers byte = true) ↔
          region.Contains byte.toNat) := by
  intro region domain
  have aligned : region.Aligned := by
    simp only [region, Region.Aligned]
    decide
  have outside : ¬region.Fits 32 := by
    simp only [region, Region.Fits]
    decide
  obtain ⟨record, middle, report, after, detected, ⟨count, unit, width⟩, configured, counted, held⟩ :=
    detect_configure_narrow (by decide) (by decide) ready_narrow domain
  have verdicts : Verdict.ofRegions record 0 domain.regions = [.placed region
      [startSetting record region 0, limitSetting record region 1]] := by
    have free : ¬record.pmpCount.toNat ≤ 0 := by rw [count]; decide
    have room : ¬record.pmpCount.toNat < 0 + 2 := by rw [count]; decide
    rw [Verdict.ofRegions, if_neg free, Protection.ofRegion_of_tor rfl]
    dsimp only
    rw [Protection.slots, if_neg room]
    rfl
  obtain ⟨first, ⟨placement⟩⟩ := exists_placement (verdicts ▸ List.mem_singleton_self _)
  refine ⟨aligned, record, middle, report, after, _, detected, ⟨unit, width⟩, configured, ?_,
    verdicts, ?_⟩
  · rw [counted, placed, verdicts]
    rfl
  · rw [Hart.covers_placement_iff placement (by decide) unit width aligned]
    · exact outside
    · rw [plan, verdicts] at held
      exact held

end BootM

end HartBoot
