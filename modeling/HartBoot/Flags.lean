import HartBoot.Word

/-! # Sets of named flags

A family of flags gives names to bits of a fixed width, in an order of its own. A flag may cover
several bits, and flags may share bits. A set is a plain pattern of bits, so it can hold bits that
no flag names; the complement of a set, and reading a set from a number, stay within the named
bits.
-/

namespace HartBoot

/-- Names for bit patterns, in the order in which they are listed. -/
abbrev FlagFamily (width : Nat) := List (String × BitVec width)

/-- The bits that the flags of a family cover together. -/
def FlagFamily.known {width : Nat} (family : FlagFamily width) : BitVec width :=
  family.foldr (fun flag bits => flag.2 ||| bits) 0

/-- A set of flags of one family. -/
structure FlagSet {width : Nat} (family : FlagFamily width) where
  bits : BitVec width
deriving DecidableEq, Repr

namespace FlagSet

variable {width : Nat} {family : FlagFamily width}

/-- The set without any bit. -/
def empty : FlagSet family := ⟨0⟩

/-- The set of all flags of the family. -/
def all : FlagSet family := ⟨family.known⟩

/-- The flags among the given bits. Bits without a name are dropped. -/
def truncate (bits : BitVec width) : FlagSet family := ⟨bits &&& family.known⟩

/-- The set of exactly the given bits, all of which must have a name. -/
def ofBits? (bits : BitVec width) : Option (FlagSet family) :=
  if bits &&& ~~~family.known = 0 then some ⟨bits⟩ else none

/-- Whether no bit is set. -/
def isEmpty (flags : FlagSet family) : Bool := flags.bits == 0

/-- Whether every named bit is set. -/
def isAll (flags : FlagSet family) : Bool := family.known &&& ~~~flags.bits == 0

/-- Whether every bit of the second set is in the first one. -/
def contains (flags wanted : FlagSet family) : Bool := flags.bits &&& wanted.bits == wanted.bits

/-- Whether the sets have a bit in common. -/
def intersects (left right : FlagSet family) : Bool := left.bits &&& right.bits != 0

instance : Union (FlagSet family) := ⟨fun left right => ⟨left.bits ||| right.bits⟩⟩

instance : Inter (FlagSet family) := ⟨fun left right => ⟨left.bits &&& right.bits⟩⟩

instance : SDiff (FlagSet family) := ⟨fun left right => ⟨left.bits &&& ~~~right.bits⟩⟩

/-- The bits in exactly one of two sets. -/
def symmDiff (left right : FlagSet family) : FlagSet family := ⟨left.bits ^^^ right.bits⟩

/-- The named bits that a set lacks. -/
def complement (flags : FlagSet family) : FlagSet family := truncate (~~~flags.bits)

/-- Names of the flags whose bits are all in the set, in the order of the family. -/
def names (flags : FlagSet family) : List String :=
  (family.filter fun flag => flags.contains ⟨flag.2⟩).map Prod.fst

/-- The names of a set joined by vertical bars, or a marker for the empty set. -/
def text (flags : FlagSet family) : String :=
  match flags.names with
  | [] => "(empty)"
  | names => String.intercalate " | " names

@[simp] theorem bits_union (left right : FlagSet family) :
    (left ∪ right).bits = left.bits ||| right.bits := rfl

@[simp] theorem bits_inter (left right : FlagSet family) :
    (left ∩ right).bits = left.bits &&& right.bits := rfl

@[simp] theorem bits_sdiff (left right : FlagSet family) :
    (left \ right).bits = left.bits &&& ~~~right.bits := rfl

@[ext] theorem ext {left right : FlagSet family} (same : left.bits = right.bits) :
    left = right := by
  cases left
  cases right
  exact congrArg FlagSet.mk same

@[simp] theorem union_empty (flags : FlagSet family) : flags ∪ empty = flags := by
  ext1
  exact BitVec.or_zero

@[simp] theorem empty_union (flags : FlagSet family) : empty ∪ flags = flags := by
  ext1
  exact BitVec.zero_or

@[simp] theorem inter_empty (flags : FlagSet family) : flags ∩ empty = empty := by
  ext1
  exact BitVec.and_zero

theorem inter_union (flags left right : FlagSet family) :
    flags ∩ (left ∪ right) = (flags ∩ left) ∪ (flags ∩ right) := by
  ext1
  exact BitVec.and_or_distrib_left

/-- Containing a set means having each of its bits. -/
theorem contains_iff (flags wanted : FlagSet family) :
    flags.contains wanted = true ↔
      ∀ position, wanted.bits.getLsbD position = true → flags.bits.getLsbD position = true := by
  rw [contains, beq_iff_eq]
  constructor
  · intro same position present
    have bit := congrArg (fun bits => bits.getLsbD position) same
    simp only [BitVec.getLsbD_and, present, Bool.and_true] at bit
    exact bit
  · intro covered
    apply BitVec.eq_of_getLsbD_eq
    intro position _
    rw [BitVec.getLsbD_and]
    cases present : wanted.bits.getLsbD position
    · simp
    · simp [covered position present]

/-- A single bit is set where it stands and nowhere else. -/
theorem getLsbD_one_shiftLeft {position : Nat} (inside : position < width) (other : Nat) :
    ((1 : BitVec width) <<< position).getLsbD other = true ↔ position = other := by
  change (BitVec.twoPow width position).getLsbD other = true ↔ position = other
  simp only [BitVec.getLsbD_twoPow, inside, decide_true, Bool.true_and, decide_eq_true_eq]

/-- Containing a single bit means having it. -/
theorem contains_single (flags : FlagSet family) {position : Nat} (inside : position < width) :
    flags.contains ⟨(1 : BitVec width) <<< position⟩ = flags.bits.getLsbD position := by
  rw [Bool.eq_iff_iff, contains_iff]
  constructor
  · intro covered
    exact covered position ((getLsbD_one_shiftLeft inside position).mpr rfl)
  · intro present other hit
    obtain rfl := (getLsbD_one_shiftLeft inside other).mp hit
    exact present

/-- A set meets a single bit in that bit or not at all. -/
theorem inter_single (flags : FlagSet family) {position : Nat} (inside : position < width) :
    flags ∩ ⟨(1 : BitVec width) <<< position⟩ =
      if flags.contains ⟨(1 : BitVec width) <<< position⟩ then ⟨(1 : BitVec width) <<< position⟩
      else empty := by
  rw [contains_single flags inside]
  ext1
  change flags.bits &&& BitVec.twoPow width position = _
  rw [BitVec.and_twoPow]
  split <;> rfl

section contains

variable {larger smaller wanted : FlagSet family}

theorem contains_trans (covers : larger.contains smaller = true)
    (holds : smaller.contains wanted = true) : larger.contains wanted = true := by
  rw [contains_iff] at covers holds ⊢
  exact fun position present => covers position (holds position present)

theorem eq_empty_of_contains (covers : (empty : FlagSet family).contains smaller = true) :
    smaller = empty := by
  rw [contains, beq_iff_eq] at covers
  ext1
  exact covers.symm.trans BitVec.zero_and

/-- What a flag's absence from a set means for the sets within it. -/
theorem contains_eq_false (covers : larger.contains smaller = true)
    (missing : larger.contains wanted = false) : smaller.contains wanted = false := by
  rw [← Bool.not_eq_true] at missing ⊢
  exact fun held => missing (contains_trans covers held)

end contains

end FlagSet

end HartBoot
