import HartBoot.Pmp.Lookup
import HartBoot.Proofs.Bits
import Mathlib.Tactic.Ring

/-! # What an entry matches, in bytes

An entry holds addresses of words, and the size of a block as a run of ones at the bottom of its
address. Here the matching of an entry is put in terms of byte addresses as numbers: a block is
matched by the quotient of an address by its size, and a range by comparison with its bounds. The
octet of a setting carries the permissions and the matching mode side by side.
-/

namespace HartBoot

namespace PmpReading

variable {reading : PmpReading} {byte : Word}

theorem covers_of_off (mode : MatchMode.ofOctet reading.octet = .off) :
    reading.covers byte = false := by
  simp only [covers, mode]

theorem covers_iff_of_na4 (mode : MatchMode.ofOctet reading.octet = .na4) :
    reading.covers byte = true ↔ byte.toNat / 4 = reading.address.toNat := by
  simp only [covers, mode, beq_iff_eq, ← BitVec.toNat_inj, Word.toNat_shiftRight_two]

theorem covers_iff_of_tor (mode : MatchMode.ofOctet reading.octet = .tor) :
    reading.covers byte = true ↔
      reading.previous.toNat ≤ byte.toNat / 4 ∧ byte.toNat / 4 < reading.address.toNat := by
  simp only [covers, mode, Bool.and_eq_true, decide_eq_true_eq, BitVec.le_def, BitVec.lt_def,
    Word.toNat_shiftRight_two]

/-- An address of the form of a block has as many ones at the bottom as the form says. -/
theorem trailingOnes_eq {address : Word} {ones quotient : Nat} (inside : ones < 64)
    (form : address.toNat = quotient * 2 ^ (ones + 1) + (2 ^ ones - 1)) :
    trailingOnes address = ones := by
  have positive : 0 < 2 ^ ones := Nat.two_pow_pos ones
  have split : address.toNat = 2 ^ ones * (2 * quotient) + (2 ^ ones - 1) := by
    rw [form, Nat.pow_succ]
    ring
  have bit (position : Nat) : address.getLsbD position =
      if position < ones then true else (2 * quotient).testBit (position - ones) := by
    rw [BitVec.getLsbD, split, Nat.testBit_two_pow_mul_add _ (by omega)]
    split
    next low => rw [Nat.testBit_two_pow_sub_one, decide_eq_true low]
    next => rfl
  apply Word.trailingZeros_eq
  · rw [BitVec.getLsbD_not, bit ones, if_neg (lt_irrefl ones), Nat.sub_self]
    simp [inside]
  · intro lower below
    rw [BitVec.getLsbD_not, bit lower, if_pos below]
    simp

theorem covers_iff_of_napot (mode : MatchMode.ofOctet reading.octet = .napot)
    {ones quotient : Nat} (inside : ones < 64)
    (form : reading.address.toNat = quotient * 2 ^ (ones + 1) + (2 ^ ones - 1)) :
    reading.covers byte = true ↔ byte.toNat / 2 ^ (ones + 3) = quotient := by
  have positive : 0 < 2 ^ ones := Nat.two_pow_pos ones
  have quotients : reading.address.toNat / 2 ^ (ones + 1) = quotient := by
    rw [form, Nat.mul_comm, Nat.mul_add_div (Nat.two_pow_pos _)]
    rw [Nat.div_eq_of_lt (by rw [Nat.pow_succ]; omega), Nat.add_zero]
  have bytes : byte.toNat / 4 / 2 ^ (ones + 1) = byte.toNat / 2 ^ (ones + 3) := by
    rw [Nat.div_div_eq_div_mul]
    congr 1
    ring
  simp only [covers, mode, beq_iff_eq, trailingOnes_eq inside form, Word.shiftRight_eq_iff,
    Word.toNat_shiftRight_two, quotients, bytes]

/-- An entry of only ones matches all memory. -/
theorem covers_of_ones (mode : MatchMode.ofOctet reading.octet = .napot)
    (full : reading.address = Word.ones) : reading.covers byte = true := by
  have ones : trailingOnes Word.ones + 1 = 65 := by decide +kernel
  have bound := byte.isLt
  simp only [covers, mode, beq_iff_eq, full, ones, Word.shiftRight_eq_iff, Word.toNat_shiftRight_two]
  rw [Nat.div_eq_of_lt (by omega), Nat.div_eq_of_lt (by omega)]

end PmpReading

namespace PmpFlags

/-- The octet of a setting selects the matching mode that was added to the permissions. -/
theorem ofOctet_union (flags mode : PmpFlags) :
    MatchMode.ofOctet (flags.withoutMatching ∪ mode).bits = MatchMode.ofOctet mode.bits := by
  have cleared : (flags.withoutMatching.bits >>> 3) &&& (0b11 : Byte) = 0 := by
    rw [withoutMatching, FlagSet.bits_sdiff, BitVec.ushiftRight_and_distrib, BitVec.and_assoc]
    exact BitVec.and_zero
  have bits : ((flags.withoutMatching ∪ mode).bits >>> 3) &&& (0b11 : Byte) =
      (mode.bits >>> 3) &&& (0b11 : Byte) := by
    rw [FlagSet.bits_union, BitVec.ushiftRight_or_distrib, BitVec.and_or_distrib_right, cleared]
    exact BitVec.zero_or
  simp only [MatchMode.ofOctet, bits]

end PmpFlags

end HartBoot
