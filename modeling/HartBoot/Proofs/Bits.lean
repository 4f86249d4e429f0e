import HartBoot.Word
import Mathlib.Data.Nat.Bitwise
import Mathlib.Order.Bounds.Basic

/-! # Bit positions and low masks

The counts of zeros of a word are told by the positions of its set bits: the lowest one stands
after the trailing zeros, the highest one just below the bit length. A word made of ones up to
some position masks a word to its remainder by a power of two, and its complement rounds down.
-/

namespace HartBoot.Word

theorem isLeast_trailingZeros {word : Word} (nonzero : word ≠ 0) :
    IsLeast {position | word.getLsbD position = true} (trailingZeros word) := by
  refine ⟨getLsbD_trailingZeros nonzero, ?_⟩
  intro position set
  by_contra above
  have clear := getLsbD_of_lt_trailingZeros (not_le.mp above)
  simp_all

/-- A set bit with only clear bits below it is the one after the trailing zeros. -/
theorem trailingZeros_eq {word : Word} {position : Nat} (set : word.getLsbD position = true)
    (clear : ∀ lower < position, word.getLsbD lower = false) : trailingZeros word = position := by
  have nonzero : word ≠ 0 := by
    rintro rfl
    simp at set
  apply (isLeast_trailingZeros nonzero).unique
  refine ⟨set, ?_⟩
  intro other present
  by_contra below
  have absent := clear other (not_le.mp below)
  simp_all

theorem bitLength_le (word : Word) : bitLength word ≤ 64 := Nat.sub_le ..

theorem isGreatest_bitLength {word : Word} (nonzero : word ≠ 0) :
    ∃ high, bitLength word = high + 1 ∧
      IsGreatest {position | word.getLsbD position = true} high := by
  have some : word.clz.toNat < 64 := by
    have fewer := BitVec.clz_lt_iff_ne_zero.mpr nonzero
    simpa [BitVec.lt_def] using fewer
  refine ⟨64 - 1 - word.clz.toNat, by unfold bitLength width; omega, ?_, ?_⟩
  · exact BitVec.getLsbD_true_clz_of_ne_zero (by decide) nonzero
  · intro position set
    have bound : word.toNat < 2 ^ (64 - word.clz.toNat) := BitVec.toNat_lt_two_pow_sub_clz
    have reached : 2 ^ position ≤ word.toNat := Nat.ge_two_pow_of_testBit set
    have below := (Nat.pow_lt_pow_iff_right (by decide)).mp (reached.trans_lt bound)
    omega

/-- The word with all bits below a position set. -/
def lowMask (count : Nat) : Word := (1 <<< count) - 1

theorem toNat_shiftLeft_one {count : Nat} (inside : count < 64) :
    ((1 : Word) <<< count).toNat = 2 ^ count := by
  have bound : 2 ^ count < 2 ^ 64 := Nat.pow_lt_pow_right (by decide) inside
  rw [BitVec.toNat_shiftLeft, Nat.shiftLeft_eq]
  simpa using bound

theorem toNat_lowMask {count : Nat} (inside : count < 64) :
    (lowMask count).toNat = 2 ^ count - 1 := by
  have bound : 2 ^ count < 2 ^ 64 := Nat.pow_lt_pow_right (by decide) inside
  have positive : 0 < 2 ^ count := Nat.two_pow_pos count
  rw [lowMask, BitVec.toNat_sub, BitVec.natCast_eq_ofNat, BitVec.toNat_ofNat, Nat.one_shiftLeft,
    Nat.mod_eq_of_lt bound]
  simp only [BitVec.ofNat_eq_ofNat, BitVec.toNat_ofNat]
  omega

theorem getLsbD_lowMask {count : Nat} (inside : count < 64) (position : Nat) :
    (lowMask count).getLsbD position = decide (position < count) := by
  rw [BitVec.getLsbD, toNat_lowMask inside, Nat.testBit_two_pow_sub_one]

/-- Masking with ones below a position leaves the remainder. -/
theorem toNat_and_lowMask (word : Word) {count : Nat} (inside : count < 64) :
    (word &&& lowMask count).toNat = word.toNat % 2 ^ count := by
  rw [BitVec.toNat_and, toNat_lowMask inside, Nat.and_two_pow_sub_one_eq_mod]

/-- Masking with the complement clears the bits below a position. -/
theorem and_not_lowMask (word : Word) {count : Nat} (inside : count < 64) :
    word &&& ~~~lowMask count = (word >>> count) <<< count := by
  apply BitVec.eq_of_getLsbD_eq
  intro position small
  simp only [BitVec.getLsbD_and, BitVec.getLsbD_not, getLsbD_lowMask inside,
    BitVec.getLsbD_shiftLeft, BitVec.getLsbD_ushiftRight]
  by_cases low : position < count
  · simp [low]
  · simp [low, small, Nat.add_sub_cancel' (not_lt.mp low)]

theorem toNat_and_not_lowMask (word : Word) {count : Nat} (inside : count < 64) :
    (word &&& ~~~lowMask count).toNat = word.toNat / 2 ^ count * 2 ^ count := by
  have bound := word.isLt
  have smaller := Nat.div_mul_le_self word.toNat (2 ^ count)
  rw [and_not_lowMask word inside, BitVec.toNat_shiftLeft, BitVec.toNat_ushiftRight,
    Nat.shiftLeft_eq, Nat.shiftRight_eq_div_pow]
  exact Nat.mod_eq_of_lt (by omega)

theorem toNat_shiftRight (word : Word) (count : Nat) :
    (word >>> count).toNat = word.toNat / 2 ^ count := by
  rw [BitVec.toNat_ushiftRight, Nat.shiftRight_eq_div_pow]

/-- The word of four bytes that a byte lies in. -/
theorem toNat_shiftRight_two (word : Word) : (word >>> 2).toNat = word.toNat / 4 :=
  toNat_shiftRight word 2

/-- Words agree above a position when they lie in the same block of that size. -/
theorem shiftRight_eq_iff (left right : Word) (count : Nat) :
    left >>> count = right >>> count ↔ left.toNat / 2 ^ count = right.toNat / 2 ^ count := by
  rw [← BitVec.toNat_inj, toNat_shiftRight, toNat_shiftRight]

end HartBoot.Word
