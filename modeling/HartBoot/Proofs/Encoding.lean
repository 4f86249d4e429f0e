import HartBoot.Pmp.Setting
import HartBoot.Proofs.Matching

/-! # Encoded protections match what they protect

A block is encoded by its quotient and a run of ones, and a range by its bounds rounded down to the
granularity, so the entries of a protection match the bytes of the region and no others. The
reference for this is a region's own arithmetic: division by the size of a block, comparison with
the bounds of a range.
-/

namespace HartBoot

/-- Whether a region guards a byte when the bounds of ranges are rounded down to some unit. A block
is the naturally aligned one that its base lies in. -/
def Region.guards (region : Region) (unit byte : Nat) : Bool :=
  match region.extent with
  | .napot order => byte / 2 ^ order == region.base.toNat / 2 ^ order
  | .tor size =>
    decide (region.base.toNat / unit * unit ≤ byte) &&
      decide (byte < min (region.base.toNat + size.toNat) (2 ^ 64 - 1) / unit * unit)

namespace Protection

/-- The granularity is at least a word of four bytes. -/
theorem toNat_granule (record : FeatureRecord) :
    (granule record).toNat = max 4 record.pmpGran.toNat := by
  unfold granule
  split
  next small =>
    have bound : record.pmpGran.toNat < 4 := BitVec.lt_def.mp small
    exact (max_eq_left bound.le).symm
  next large =>
    have bound : ¬record.pmpGran.toNat < 4 := fun less => large (BitVec.lt_def.mpr less)
    exact (max_eq_right (not_lt.mp bound)).symm

/-- A granularity that is missing or a power of two makes a power of two of at least four bytes. -/
theorem exists_toNat_granule {record : FeatureRecord}
    (power : record.pmpGran = 0 ∨ ∃ exponent, record.pmpGran.toNat = 2 ^ exponent) :
    ∃ extra, extra + 2 < 64 ∧ (granule record).toNat = 2 ^ (extra + 2) := by
  have word : (4 : Nat) = 2 ^ (0 + 2) := rfl
  rw [toNat_granule]
  rcases power with none | ⟨exponent, power⟩
  · refine ⟨0, by decide, ?_⟩
    rw [none]
    rfl
  · have bound := record.pmpGran.isLt
    rw [power] at bound ⊢
    have inside : exponent < 64 := (Nat.pow_lt_pow_iff_right (by decide)).mp bound
    by_cases small : exponent ≤ 2
    · have less : 2 ^ exponent ≤ 2 ^ 2 := Nat.pow_le_pow_right (by decide) small
      exact ⟨0, by decide, max_eq_left less⟩
    · obtain ⟨extra, rfl⟩ := Nat.exists_eq_add_of_le' (not_le.mp small).le
      have less : 2 ^ 2 ≤ 2 ^ (extra + 2) := Nat.pow_le_pow_right (by decide) (by omega)
      exact ⟨extra, inside, max_eq_right less⟩

theorem toNat_alignDown (address : Word) {unit : Word} {exponent : Nat} (inside : exponent < 64)
    (power : unit.toNat = 2 ^ exponent) :
    (alignDown address unit).toNat = address.toNat / 2 ^ exponent * 2 ^ exponent := by
  have mask : unit - 1 = Word.lowMask exponent := by
    have shifted : unit = (1 : Word) <<< exponent :=
      BitVec.eq_of_toNat_eq (power.trans (Word.toNat_shiftLeft_one inside).symm)
    rw [shifted]
    rfl
  rw [alignDown, mask, Word.toNat_and_not_lowMask address inside]

theorem toNat_addressShift (address : Word) :
    (address >>> addressShift).toNat = address.toNat / 4 := Word.toNat_shiftRight_two address

/-- A bound of a range is held as the number of words up to the multiple of the granularity. -/
theorem toNat_alignedWord {record : FeatureRecord}
    (power : record.pmpGran = 0 ∨ ∃ exponent, record.pmpGran.toNat = 2 ^ exponent)
    (address : Word) :
    4 * (alignDown address (granule record) >>> addressShift).toNat =
      address.toNat / max 4 record.pmpGran.toNat * max 4 record.pmpGran.toNat := by
  obtain ⟨extra, inside, unit⟩ := exists_toNat_granule power
  have whole : 2 ^ (extra + 2) = 2 ^ extra * 4 := Nat.pow_add 2 extra 2
  rw [← toNat_granule, unit, toNat_addressShift, toNat_alignDown address inside unit, whole,
    ← Nat.mul_assoc, Nat.mul_div_cancel _ (by decide)]
  ring

theorem toNat_limit {region : Region} {size : Word} (range : region.extent = .tor size) :
    region.limit.toNat = min (region.base.toNat + size.toNat) (2 ^ 64 - 1) := by
  simp only [Region.limit, range, Word.toNat_saturatingAdd]
  rfl

/-- Except for the smallest and the largest one, the address for a block is the number of the block
followed by a zero and a run of ones. -/
theorem toNat_blockAddress (base : Word) {order : Nat} (low : 2 < order) (high : order < 64) :
    (blockAddress base order).1 = PmpFlags.napot ∧
      (blockAddress base order).2.toNat =
        base.toNat / 2 ^ order * 2 ^ (order - 3 + 1) + (2 ^ (order - 3) - 1) := by
  obtain ⟨ones, rfl⟩ := Nat.exists_eq_add_of_le' low
  have inside : ones + 1 < 64 := by omega
  have positive : 0 < 2 ^ ones := Nat.two_pow_pos ones
  have encoded : blockAddress base (ones + 3) = (PmpFlags.napot,
      ((base >>> addressShift) &&& ~~~Word.lowMask (ones + 1)) ||| (Word.lowMask (ones + 1) >>> 1)) := by
    rw [blockAddress, if_neg (by unfold minOrder; omega), if_neg (by unfold maxOrder; omega)]
    rfl
  have run : (Word.lowMask (ones + 1) >>> 1).toNat = 2 ^ ones - 1 := by
    rw [Word.toNat_shiftRight, Word.toNat_lowMask inside, Nat.pow_succ]
    omega
  have quotient : base.toNat / 4 / 2 ^ (ones + 1) = base.toNat / 2 ^ (ones + 3) := by
    rw [Nat.div_div_eq_div_mul]
    congr 1
    ring
  have small : 2 ^ ones - 1 < 2 ^ (ones + 1) := by
    rw [Nat.pow_succ]
    omega
  refine ⟨congrArg Prod.fst encoded, ?_⟩
  rw [encoded, BitVec.toNat_or, Word.toNat_and_not_lowMask _ inside, toNat_addressShift, quotient, run,
    Nat.mul_comm, ← Nat.two_pow_add_eq_or_of_lt small, Nat.add_sub_cancel]
  ring

/-- The entry of a block matches the block that the base lies in. -/
theorem covers_block {reading : PmpReading} {flags : PmpFlags} {base byte : Word} {order : Nat}
    (low : 2 ≤ order) (high : order ≤ 64)
    (octet : reading.octet = (flags.withoutMatching ∪ (blockAddress base order).1).bits)
    (address : reading.address = (blockAddress base order).2) :
    reading.covers byte = true ↔ byte.toNat / 2 ^ order = base.toNat / 2 ^ order := by
  have mode := congrArg MatchMode.ofOctet octet
  rw [PmpFlags.ofOctet_union] at mode
  rcases Nat.eq_or_lt_of_le low with rfl | above
  · have smallest : blockAddress base 2 = (PmpFlags.na4, base >>> addressShift) := rfl
    simp only [smallest] at mode address
    rw [PmpReading.covers_iff_of_na4 mode, address, toNat_addressShift]
    exact Iff.rfl
  · rcases Nat.eq_or_lt_of_le high with rfl | below
    · have largest : blockAddress base 64 = (PmpFlags.napot, Word.ones) := rfl
      simp only [largest] at mode address
      have whole : reading.covers byte = true := PmpReading.covers_of_ones mode address
      rw [whole, Nat.div_eq_of_lt byte.isLt, Nat.div_eq_of_lt base.isLt]
      simp
    · obtain ⟨napot, form⟩ := toNat_blockAddress base above below
      rw [napot] at mode
      rw [← address] at form
      rw [PmpReading.covers_iff_of_napot mode (by omega) form, Nat.sub_add_cancel above]

/-- The second entry of a range matches the words between its bounds. -/
theorem covers_range {reading : PmpReading} {flags : PmpFlags} {byte : Word}
    (octet : reading.octet = (flags.withoutMatching ∪ PmpFlags.tor).bits) :
    reading.covers byte = true ↔
      reading.previous.toNat ≤ byte.toNat / 4 ∧ byte.toNat / 4 < reading.address.toNat := by
  have mode := congrArg MatchMode.ofOctet octet
  rw [PmpFlags.ofOctet_union] at mode
  exact PmpReading.covers_iff_of_tor mode

/-- The first entry of a range matches nothing. -/
theorem covers_start {reading : PmpReading} {flags : PmpFlags} {byte : Word}
    (octet : reading.octet = flags.withoutMatching.bits) : reading.covers byte = false := by
  have mode := congrArg MatchMode.ofOctet octet
  rw [← FlagSet.union_empty flags.withoutMatching, PmpFlags.ofOctet_union] at mode
  exact PmpReading.covers_of_off mode

/-- An entry grants the permissions that the region asks for. -/
theorem grants_permissions {reading : PmpReading} {flags : RegionFlags} {mode : PmpFlags}
    (octet : reading.octet = ((permissions flags).withoutMatching ∪ mode).bits)
    (listed : mode ∈ [PmpFlags.tor, PmpFlags.na4, PmpFlags.napot]) :
    reading.grants = permissions flags := by
  rw [PmpReading.grants, octet]
  simp only [permissions]
  simp only [List.mem_cons, List.not_mem_nil, or_false] at listed
  cases flags.contains RegionFlags.readable <;> cases flags.contains RegionFlags.writeable <;>
    cases flags.contains RegionFlags.executable <;>
    cases flags.contains RegionFlags.machineMode <;>
    rcases listed with rfl | rfl | rfl <;> rfl

end Protection

end HartBoot
