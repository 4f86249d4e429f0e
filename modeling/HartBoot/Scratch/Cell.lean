import HartBoot.Features.Layout
import HartBoot.Scratch.Allocator

/-! # Kinds of items and their cells

Scratch memory is asked for by the kind of item that is to live in it: a machine integer, a feature
record, or any other block of plain bytes, given by its size and its alignment. An offset that was
handed out for a kind of item is a cell of that kind, which there is one of in the area of every
hart.
-/

namespace HartBoot

/-- The kinds of items that scratch memory is reserved for. -/
inductive ItemKind where
  | uint8
  | uint16
  | uint32
  | uint64
  | word
  | features
  /-- Plain bytes, with an alignment that is one more than the given number. -/
  | block (size align : Nat)
deriving DecidableEq, Repr

namespace ItemKind

/-- The items of a kind. -/
def Carrier : ItemKind → Type
  | .uint8 => BitVec 8
  | .uint16 => BitVec 16
  | .uint32 => BitVec 32
  | .uint64 => BitVec 64
  | .word => Word
  | .features => FeatureRecord
  | .block size align => Block size (align + 1)

instance : (kind : ItemKind) → Item kind.Carrier
  | .uint8 => inferInstanceAs (Item (BitVec 8))
  | .uint16 => inferInstanceAs (Item (BitVec 16))
  | .uint32 => inferInstanceAs (Item (BitVec 32))
  | .uint64 => inferInstanceAs (Item (BitVec 64))
  | .word => inferInstanceAs (Item (BitVec 64))
  | .features => inferInstanceAs (Item FeatureRecord)
  | .block size align => inferInstanceAs (Item (Block size (align + 1)))

end ItemKind

/-- A place for items of one kind, in the scratch area of every hart. -/
structure Cell where
  kind : ItemKind
  offset : Offset kind.Carrier

namespace Cell

theorem ext_iff (left right : Cell) :
    left = right ↔ left.kind = right.kind ∧ left.offset.position = right.offset.position := by
  constructor
  · rintro rfl
    exact ⟨rfl, rfl⟩
  · obtain ⟨kind, first⟩ := left
    obtain ⟨other, second⟩ := right
    rintro ⟨rfl, same⟩
    exact congrArg (Cell.mk kind) (Offset.ext same)

instance : DecidableEq Cell := fun left right => decidable_of_iff' _ (ext_iff left right)

/-- First byte past a cell. -/
def limit (cell : Cell) : Nat := cell.offset.position + Item.size cell.kind.Carrier

/-- The item that is made up of zeros. -/
def zero (cell : Cell) : cell.kind.Carrier :=
  Item.decode (List.replicate (Item.size cell.kind.Carrier) 0)

/-- Two cells do not share a byte. -/
def Apart (left right : Cell) : Prop :=
  left.limit ≤ right.offset.position ∨ right.limit ≤ left.offset.position

/-- The cell of a feature record. -/
def ofFeatures (offset : Offset FeatureRecord) : Cell := ⟨.features, offset⟩

end Cell

end HartBoot
