/-! # Machine words

A hart computes on 64-bit words. Arithmetic on them is checked: a sum that does not fit, or a
shift by the width of a word or more, is refused with the operation that overflowed and never
wraps silently. Bit positions are natural numbers, so they can be compared before they are used.
-/

namespace HartBoot

/-- A register, an address, or anything else that fills a machine word. -/
abbrev Word := BitVec 64

/-- The checked machine operations, as the cause of a refused computation. -/
inductive Overflow where
  | add
  | subtract
  | shiftLeft
  | shiftRight
deriving DecidableEq, Repr

/-- The sentence reporting a refused operation. -/
def Overflow.message : Overflow → String
  | .add => "attempt to add with overflow"
  | .subtract => "attempt to subtract with overflow"
  | .shiftLeft => "attempt to shift left with overflow"
  | .shiftRight => "attempt to shift right with overflow"

namespace Word

/-- Number of bits in a word. -/
def width : Nat := 64

/-- The word with every bit set, which is also the largest one. -/
def ones : Word := BitVec.allOnes 64

/-- Position of the lowest set bit, or the width of a word when no bit is set. -/
def trailingZeros (word : Word) : Nat := word.ctz.toNat

/-- One more than the position of the highest set bit, or zero when no bit is set. -/
def bitLength (word : Word) : Nat := width - word.clz.toNat

/-- Shift towards the high bits by less than the width of a word. -/
def shiftLeft? (word : Word) (amount : Nat) : Except Overflow Word :=
  if amount < width then .ok (word <<< amount) else .error .shiftLeft

/-- Shift towards the low bits by less than the width of a word. -/
def shiftRight? (word : Word) (amount : Nat) : Except Overflow Word :=
  if amount < width then .ok (word >>> amount) else .error .shiftRight

/-- Sum of two counts that are kept in machine words. -/
def addCounts? (left right : Nat) : Except Overflow Nat :=
  if left + right ≤ ones.toNat then .ok (left + right) else .error .add

/-- Sum that stays at the largest word instead of wrapping. -/
def saturatingAdd (left right : Word) : Word :=
  if left.toNat + right.toNat ≤ ones.toNat then left + right else ones

/-- Counting zeros from the bottom runs past the end exactly when there is no set bit. -/
theorem trailingZeros_lt_width_iff (word : Word) : trailingZeros word < width ↔ word ≠ 0 := by
  have key := BitVec.ctz_lt_iff_ne_zero (x := word)
  simpa [trailingZeros, width, BitVec.lt_def] using key

theorem getLsbD_trailingZeros {word : Word} (nonzero : word ≠ 0) :
    word.getLsbD (trailingZeros word) = true :=
  BitVec.getLsbD_true_ctz_of_ne_zero nonzero

theorem getLsbD_of_lt_trailingZeros {word : Word} {position : Nat}
    (below : position < trailingZeros word) : word.getLsbD position = false :=
  BitVec.getLsbD_false_of_lt_ctz below

/-- A saturating sum is the true sum, cut at the largest word. -/
theorem toNat_saturatingAdd (left right : Word) :
    (saturatingAdd left right).toNat = min (left.toNat + right.toNat) ones.toNat := by
  have largest : ones.toNat = 18446744073709551615 := by decide
  unfold saturatingAdd
  split
  next fits =>
    rw [BitVec.toNat_add, Nat.mod_eq_of_lt (by omega)]
    omega
  next tooBig => omega

end Word

end HartBoot
