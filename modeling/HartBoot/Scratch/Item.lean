import HartBoot.Hex
import HartBoot.Scratch.Area

/-! # Items in scratch memory

An item has a size and an alignment, and is kept as little-endian bytes from which it can be read
back. Any bytes make up some item, so an item can be read from memory that nobody has written to.
The place of an item is an offset that is valid in the area of every hart: the item lies inside
the area and is aligned.
-/

namespace HartBoot

/-- The lowest bytes of a number, the least significant one first. -/
def littleEndian : Nat → Nat → List Byte
  | 0, _ => []
  | count + 1, number => BitVec.ofNat 8 number :: littleEndian count (number / 256)

/-- The number with the given bytes, the least significant one first. -/
def ofLittleEndian : List Byte → Nat
  | [] => 0
  | byte :: rest => byte.toNat + 256 * ofLittleEndian rest

@[simp] theorem length_littleEndian (count number : Nat) :
    (littleEndian count number).length = count := by
  induction count generalizing number with
  | zero => rfl
  | succ count ih => simp [littleEndian, ih]

/-- Reading bytes back gives the number, less what did not fit. -/
theorem ofLittleEndian_littleEndian (count number : Nat) :
    ofLittleEndian (littleEndian count number) = (BitVec.ofNat (8 * count) number).toNat := by
  induction count generalizing number with
  | zero => simp [littleEndian, ofLittleEndian, BitVec.toNat_of_zero_length]
  | succ count ih =>
    simp only [littleEndian, ofLittleEndian, ih, BitVec.toNat_ofNat]
    rw [Nat.mul_succ, Nat.add_comm (8 * count) 8, Nat.pow_add, Nat.mod_mul]

/-- A machine integer is read back from its bytes. -/
theorem ofNat_ofLittleEndian_littleEndian (count : Nat) (item : BitVec (8 * count)) :
    BitVec.ofNat (8 * count) (ofLittleEndian (littleEndian count item.toNat)) = item := by
  rw [ofLittleEndian_littleEndian, BitVec.ofNat_toNat, BitVec.setWidth_eq, BitVec.ofNat_toNat,
    BitVec.setWidth_eq]

/-- Types that can live in scratch memory. -/
class Item (α : Type) where
  size : Nat
  align : Nat
  align_pos : 0 < align
  encode : α → List Byte
  decode : List Byte → α
  length_encode : ∀ item, (encode item).length = size
  decode_encode : ∀ item, decode (encode item) = item

namespace Item

/-- Machine integers are kept in as many bytes as they have, and are aligned to their size. -/
@[reducible] def integer (count : Nat) (positive : 0 < count) : Item (BitVec (8 * count)) where
  size := count
  align := count
  align_pos := positive
  encode item := littleEndian count item.toNat
  decode bytes := BitVec.ofNat (8 * count) (ofLittleEndian bytes)
  length_encode item := length_littleEndian count item.toNat
  decode_encode item := ofNat_ofLittleEndian_littleEndian count item

instance : Item (BitVec 8) := integer 1 (by decide)

instance : Item (BitVec 16) := integer 2 (by decide)

instance : Item (BitVec 32) := integer 4 (by decide)

instance : Item (BitVec 64) := integer 8 (by decide)

end Item

/-- Plain bytes of a given number and alignment. -/
structure Block (size align : Nat) where
  bytes : Vector Byte size
deriving DecidableEq

namespace Block

/-- Blocks with a positive alignment can live in scratch memory. -/
instance (size align : Nat) : Item (Block size (align + 1)) where
  size := size
  align := align + 1
  align_pos := Nat.succ_pos align
  encode item := item.bytes.toList
  decode bytes := ⟨Vector.ofFn fun index => bytes[index.val]?.getD 0⟩
  length_encode item := by simp
  decode_encode item := by
    cases item with
    | mk bytes =>
      congr 1
      apply Vector.ext
      intro index inside
      simp

end Block

/-- The place of an item in the scratch area of every hart. -/
structure Offset (α : Type) [Item α] where
  position : Nat
  inside : position + Item.size α ≤ Area.size
  aligned : Item.align α ∣ position

namespace Offset

variable {α : Type} [Item α]

@[ext] theorem ext {left right : Offset α} (same : left.position = right.position) :
    left = right := by
  cases left
  cases right
  simp_all

instance : DecidableEq (Offset α) := fun left right =>
  if same : left.position = right.position then isTrue (ext same)
  else isFalse fun equal => same (congrArg position equal)

/-- How an offset is shown in diagnostics. -/
def text (offset : Offset α) : String := "ScratchOffset(" ++ hex offset.position ++ ")"

end Offset

namespace Area

variable {α : Type} [Item α]

/-- The item at an offset. -/
def get (area : Area) (offset : Offset α) : α :=
  Item.decode (area.read offset.position (Item.size α))

/-- Replace the item at an offset. -/
def put (area : Area) (offset : Offset α) (item : α) : Area :=
  area.write offset.position (Item.encode item)

/-- The item that was put at an offset is found there. -/
theorem get_put (area : Area) (offset : Offset α) (item : α) :
    (area.put offset item).get offset = item := by
  have sized := Item.length_encode item
  have fits : offset.position + (Item.encode item).length ≤ size := by
    rw [sized]
    exact offset.inside
  have stored := read_write area offset.position (Item.encode item) fits
  rw [sized] at stored
  rw [get, put, stored, Item.decode_encode]

/-- Items in disjoint places do not disturb each other. -/
theorem get_put_of_disjoint {β : Type} [Item β] (area : Area) (offset : Offset α) (item : α)
    (other : Offset β)
    (disjoint : other.position + Item.size β ≤ offset.position ∨
      offset.position + Item.size α ≤ other.position) :
    (area.put offset item).get other = area.get other := by
  have sized := Item.length_encode item
  have fits : offset.position + (Item.encode item).length ≤ size := by
    rw [sized]
    exact offset.inside
  rw [get, put, read_write_of_disjoint _ _ _ fits _ _ (by rw [sized]; exact disjoint), get]

end Area

end HartBoot
