import HartBoot.Proofs.AddressWidth

/-! # Which blocks a hart accepts

A block of memory is worth an entry if the hart can tell it apart from its surroundings, and if the
entry can hold its address. A block that is too small is refused for its size, whatever its address.
Addresses are compared with the largest address that an entry can hold, and that address itself is
refused along with those beyond it. Blocks in the topmost word of the addresses are therefore the
only ones that are refused although they fit.
-/

namespace HartBoot

/-- The permissions of an entry are those of a region, and there are no others. -/
structure PmpFlags.Mirrors (granted : PmpFlags) (wanted : RegionFlags) : Prop where
  read : granted.contains PmpFlags.read = wanted.contains RegionFlags.readable
  write : granted.contains PmpFlags.write = wanted.contains RegionFlags.writeable
  execute : granted.contains PmpFlags.execute = wanted.contains RegionFlags.executable
  lock : granted.contains PmpFlags.lock = wanted.contains RegionFlags.machineMode
  nothingElse : (PmpFlags.read ∪ PmpFlags.write ∪ PmpFlags.execute ∪ PmpFlags.lock).contains
    granted = true

/-- What a hart with the given features should make of a block: it accepts the block as it is if the
block is large enough and its address fits the address bits, and else it names what is wrong, the
size before the address. -/
inductive Region.Judged (record : FeatureRecord) (region : Region) (order : Nat) :
    Except PmpError Protection → Prop
  | accepted {granted : PmpFlags} (large : max 4 record.pmpGran.toNat ≤ 2 ^ order)
      (reachable : region.base.toNat / 4 < 2 ^ record.pmpAddrBits.toNat)
      (mirrors : granted.Mirrors region.flags) :
      Judged record region order (.ok (.napot region.base order granted))
  | small (small : 2 ^ order < max 4 record.pmpGran.toNat) :
      Judged record region order (.error (.belowGranularity order))
  | outOfReach (large : max 4 record.pmpGran.toNat ≤ 2 ^ order)
      (beyond : 2 ^ record.pmpAddrBits.toNat ≤ region.base.toNat / 4) :
      Judged record region order (.error (.addressOutOfRange region.base))

/-- A block starts in the last word that the given number of address bits can name. -/
def Region.InTopWord (region : Region) (bits : Nat) : Prop := region.base.toNat / 4 + 1 = 2 ^ bits

instance (region : Region) (bits : Nat) : Decidable (region.InTopWord bits) :=
  inferInstanceAs (Decidable (_ = _))

theorem Word.trailingZeros_of_power {word : Word} {exponent : Nat}
    (power : word.toNat = 2 ^ exponent) : trailingZeros word = exponent := by
  have bit (position : Nat) : word.getLsbD position = decide (exponent = position) := by
    rw [BitVec.getLsbD, power, Nat.testBit_two_pow]
  apply trailingZeros_eq
  · rw [bit, decide_eq_true rfl]
  · intro lower below
    rw [bit, decide_eq_false (Nat.ne_of_gt below)]

namespace Protection

variable {record : FeatureRecord} {region : Region} {order : Nat}

theorem mirrors_permissions (flags : RegionFlags) : (permissions flags).Mirrors flags := by
  constructor <;> simp only [permissions] <;>
    cases flags.contains RegionFlags.readable <;> cases flags.contains RegionFlags.writeable <;>
    cases flags.contains RegionFlags.executable <;>
    cases flags.contains RegionFlags.machineMode <;> rfl

/-- Comparing logarithms compares the size of a block with the granularity. -/
theorem lt_trailingZeros_granule_iff
    (power : record.pmpGran = 0 ∨ ∃ exponent, record.pmpGran.toNat = 2 ^ exponent) :
    order < Word.trailingZeros (granule record) ↔ 2 ^ order < max 4 record.pmpGran.toNat := by
  obtain ⟨extra, -, unit⟩ := exists_toNat_granule power
  rw [Word.trailingZeros_of_power unit, ← toNat_granule, unit]
  exact (Nat.pow_lt_pow_iff_right (by decide)).symm

/-- An address is refused from the largest one on that an entry can hold. -/
theorem addressMax_le_iff (bits : Nat) (base : Word) :
    addressMax bits ≤ base >>> addressShift ↔ 2 ^ bits ≤ base.toNat / 4 + 1 := by
  rw [BitVec.le_def, toNat_addressShift]
  rcases Nat.lt_or_ge bits 64 with inside | outside
  · rw [toNat_addressMax inside]
    omega
  · have whole : addressMax bits = Word.ones := by
      rw [addressMax, Word.width, Nat.sub_eq_zero_of_le outside]
      rfl
    have largest : Word.ones.toNat = 2 ^ 64 - 1 := rfl
    have wide : 2 ^ 64 ≤ 2 ^ bits := Nat.pow_le_pow_right (by decide) outside
    have bound := base.isLt
    rw [whole, largest]
    omega

/-- What becomes of a block, in numbers. -/
theorem ofRegion_of_napot
    (power : record.pmpGran = 0 ∨ ∃ exponent, record.pmpGran.toNat = 2 ^ exponent)
    (block : region.extent = .napot order) :
    ofRegion region record =
      if 2 ^ order < max 4 record.pmpGran.toNat then .error (.belowGranularity order)
      else if 2 ^ record.pmpAddrBits.toNat ≤ region.base.toNat / 4 + 1 then
        .error (.addressOutOfRange region.base)
      else .ok (.napot region.base order (permissions region.flags)) := by
  simp only [ofRegion, block, lt_trailingZeros_granule_iff power, addressMax_le_iff]

/-- A block that is large enough and starts in the topmost word is refused for its address. -/
theorem ofRegion_of_inTopWord
    (power : record.pmpGran = 0 ∨ ∃ exponent, record.pmpGran.toNat = 2 ^ exponent)
    (block : region.extent = .napot order) (large : max 4 record.pmpGran.toNat ≤ 2 ^ order)
    (top : region.InTopWord record.pmpAddrBits.toNat) :
    ofRegion region record = .error (.addressOutOfRange region.base) := by
  rw [ofRegion_of_napot power block, if_neg (not_lt.mpr large), if_pos (Nat.le_of_eq top.symm)]

/-- A block is judged as it should be if and only if it is too small or starts anywhere but in the
topmost word that the address bits can name. One that is large enough and starts there is refused
for its address. -/
theorem judged_iff_not_inTopWord
    (power : record.pmpGran = 0 ∨ ∃ exponent, record.pmpGran.toNat = 2 ^ exponent)
    (block : region.extent = .napot order) :
    (region.Judged record order (ofRegion region record) ↔
      2 ^ order < max 4 record.pmpGran.toNat ∨ ¬region.InTopWord record.pmpAddrBits.toNat) ∧
    (max 4 record.pmpGran.toNat ≤ 2 ^ order → region.InTopWord record.pmpAddrBits.toNat →
      ofRegion region record = .error (.addressOutOfRange region.base)) := by
  refine ⟨?_, ofRegion_of_inTopWord power block⟩
  constructor
  · intro judged
    by_contra neither
    obtain ⟨large, top⟩ := not_or.mp neither
    rw [ofRegion_of_inTopWord power block (not_lt.mp large) (not_not.mp top)] at judged
    cases judged with
    | outOfReach _ beyond =>
      have edge : region.base.toNat / 4 + 1 = 2 ^ record.pmpAddrBits.toNat := not_not.mp top
      omega
  · intro either
    rw [ofRegion_of_napot power block]
    split
    next small => exact .small small
    next large =>
      have below : ¬region.base.toNat / 4 + 1 = 2 ^ record.pmpAddrBits.toNat :=
        either.resolve_left large
      split
      next beyond => exact .outOfReach (not_lt.mp large) (by omega)
      next reachable => exact .accepted (not_lt.mp large) (by omega) (mirrors_permissions _)

/-- The last word but one of a hart with 32 address bits is accepted. -/
theorem judged_iff_not_inTopWord_nextToTop :
    let record : FeatureRecord := { pmpCount := 16, pmpGran := 4, pmpAddrBits := 32 }
    let region : Region := { base := 0x3fffffff8, extent := .napot 2, flags := ⟨0b1101⟩ }
    ((∃ exponent, record.pmpGran.toNat = 2 ^ exponent) ∧ region.extent = .napot 2) ∧
      region.Judged record 2 (ofRegion region record) ∧
      ofRegion region record = .ok (.napot 0x3fffffff8 2 ⟨0b10000101⟩) := by
  intro record region
  have power : ∃ exponent, record.pmpGran.toNat = 2 ^ exponent := ⟨2, rfl⟩
  refine ⟨⟨power, rfl⟩, (judged_iff_not_inTopWord (.inr power) rfl).1.mpr (.inr ?_), ?_⟩
  · decide
  · decide +kernel

/-- The last word of a hart with 32 address bits is refused, although its address fits. -/
theorem not_judged_topWord :
    let record : FeatureRecord := { pmpCount := 16, pmpGran := 4, pmpAddrBits := 32 }
    let region : Region := { base := 0x3fffffffc, extent := .napot 2, flags := ⟨0b0111⟩ }
    region.base.toNat / 4 < 2 ^ record.pmpAddrBits.toNat ∧
      ofRegion region record = .error (.addressOutOfRange 0x3fffffffc) ∧
      ¬region.Judged record 2 (ofRegion region record) := by
  intro record region
  have refused : ofRegion region record = .error (.addressOutOfRange 0x3fffffffc) := by
    decide +kernel
  refine ⟨by decide, refused, fun judged => ?_⟩
  rw [refused] at judged
  cases judged with
  | outOfReach _ beyond => exact absurd beyond (by decide)

end Protection

end HartBoot
