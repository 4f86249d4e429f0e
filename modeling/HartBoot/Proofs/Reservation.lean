import Mathlib.Data.List.Pairwise
import HartBoot.Scratch.Cell

/-! # Reserved cells

Places are handed out in ascending order, so no two of them share a byte, and nothing that was
handed out reaches into what is still free. Whoever writes through cells alone leaves the free bytes
of an area as they were, which is zero in the beginning, and a cell is found filled with zeros when
it is handed out.
-/

namespace HartBoot

namespace Allocator

/-- A place is handed out exactly if its alignment is no larger than that of an area and it fits
behind what was handed out. It is the first one that is aligned, and all that was free before its end
is used up. -/
theorem place?_eq_some_iff {allocator rest : Allocator} {size align position : Nat} :
    allocator.place? size align = some (position, rest) ↔
      (align ≤ Area.alignment ∧ position + size ≤ Area.size) ∧
        position = roundUp allocator.next align ∧ rest.next = position + size ∧
        rest.allocated = allocator.allocated + 1 := by
  constructor
  · intro placed
    unfold place? at placed
    split at placed
    · cases placed
    next alignable =>
      dsimp only at placed
      split at placed
      next fits =>
        obtain ⟨rfl, rfl⟩ := Prod.mk.inj (Option.some.inj placed)
        exact ⟨⟨Nat.not_lt.mp alignable, fits⟩, rfl, rfl, rfl⟩
      next => cases placed
  · rintro ⟨⟨alignable, fits⟩, rfl, filled, counted⟩
    obtain ⟨next, allocated, next_le⟩ := rest
    obtain rfl : next = _ := filled
    obtain rfl : allocated = _ := counted
    rw [place?, if_neg (Nat.not_lt.mpr alignable)]
    exact dif_pos fits

variable {α : Type} [Item α] {allocator rest : Allocator} {offset : Offset α}

/-- Offsets are handed out like the places of their items. -/
theorem alloc?_eq_some_iff :
    allocator.alloc? α = some (offset, rest) ↔
      allocator.place? (Item.size α) (Item.align α) = some (offset.position, rest) := by
  rw [← alloc?_map_position]
  constructor
  · intro reserved
    rw [reserved, Option.map_some]
  · intro placed
    obtain ⟨⟨found, left⟩, reserved, same⟩ := Option.map_eq_some_iff.mp placed
    obtain ⟨position, left⟩ := Prod.mk.inj same
    obtain rfl := Offset.ext position
    obtain rfl := left
    exact reserved

/-- There is an offset for an item exactly if there is room behind what was handed out. -/
theorem isSome_alloc?_iff (allocator : Allocator) (α : Type) [Item α] :
    (allocator.alloc? α).isSome = true ↔
      Item.align α ≤ Area.alignment ∧
        roundUp allocator.next (Item.align α) + Item.size α ≤ Area.size := by
  rw [← Option.isSome_map, alloc?_map_position, Option.isSome_iff_exists]
  constructor
  · rintro ⟨⟨position, rest⟩, placed⟩
    obtain ⟨room, rfl, -⟩ := place?_eq_some_iff.mp placed
    exact room
  · rintro ⟨alignable, fits⟩
    exact ⟨⟨_, ⟨_, allocator.allocated + 1, fits⟩⟩,
      place?_eq_some_iff.mpr ⟨⟨alignable, fits⟩, rfl, rfl, rfl⟩⟩

/-- A place that was handed out starts in what was free, and all that was free before its end is
used up. -/
theorem of_alloc? (reserved : allocator.alloc? α = some (offset, rest)) :
    allocator.next ≤ offset.position ∧ rest.next = offset.position + Item.size α ∧
      rest.allocated = allocator.allocated + 1 := by
  obtain ⟨-, start, filled, counted⟩ := place?_eq_some_iff.mp (alloc?_eq_some_iff.mp reserved)
  exact ⟨start ▸ le_roundUp _ Item.align_pos, filled, counted⟩

end Allocator

namespace Cell

theorem Apart.symm {left right : Cell} (apart : left.Apart right) : right.Apart left :=
  Or.symm apart

instance : Std.Symm Apart := ⟨fun _ _ => Apart.symm⟩

end Cell

/-- Cells have been handed out by an allocator: they lie before what is free, and share no byte. -/
structure Reserved (allocator : Allocator) (cells : List Cell) : Prop where
  within : ∀ cell ∈ cells, cell.limit ≤ allocator.next
  apart : cells.Pairwise Cell.Apart

namespace Reserved

variable {allocator rest : Allocator} {cells : List Cell}

/-- Nothing has been handed out by a fresh allocator. -/
theorem fresh : Reserved {} [] where
  within _ member := absurd member List.not_mem_nil
  apart := .nil

/-- Different cells share no byte. -/
theorem apart_of_ne (reserved : Reserved allocator cells) {cell other : Cell}
    (member : cell ∈ cells) (present : other ∈ cells) (different : cell ≠ other) :
    cell.Apart other :=
  reserved.apart.forall member present different

/-- The cell that is handed out next starts where all earlier ones have ended. -/
theorem alloc (reserved : Reserved allocator cells) {kind : ItemKind} {offset : Offset kind.Carrier}
    (placed : allocator.alloc? kind.Carrier = some (offset, rest)) :
    Reserved rest (⟨kind, offset⟩ :: cells) := by
  obtain ⟨start, filled, -⟩ := Allocator.of_alloc? placed
  have before (cell : Cell) (member : cell ∈ cells) : cell.limit ≤ offset.position :=
    Nat.le_trans (reserved.within cell member) start
  constructor
  · intro cell member
    rcases List.mem_cons.mp member with rfl | earlier
    · exact Nat.le_of_eq filled.symm
    · rw [filled]
      exact Nat.le_trans (before cell earlier) (Nat.le_add_right ..)
  · exact reserved.apart.cons fun cell member => .inr (before cell member)

/-- The order in which cells are listed does not matter. -/
theorem perm (reserved : Reserved allocator cells) {others : List Cell} (same : cells.Perm others) :
    Reserved allocator others where
  within cell member := reserved.within cell (same.mem_iff.mpr member)
  apart := reserved.apart.perm same Cell.Apart.symm

end Reserved

namespace Area

/-- The bytes from a position onwards are zero. -/
def Vacant (area : Area) (start : Nat) : Prop :=
  ∀ position, start ≤ position → area.byte position = 0

theorem vacant_blank (start : Nat) : blank.Vacant start := fun position _ => byte_blank position

namespace Vacant

variable {area : Area} {start : Nat}

theorem mono (vacant : area.Vacant start) {later : Nat} (after : start ≤ later) :
    area.Vacant later := fun position beyond => vacant position (Nat.le_trans after beyond)

/-- A cell in the vacant part of an area holds zeros. -/
theorem get_eq (vacant : area.Vacant start) (cell : Cell) (free : start ≤ cell.offset.position) :
    area.get cell.offset = cell.zero := by
  have zeros : area.read cell.offset.position (Item.size cell.kind.Carrier) =
      List.replicate (Item.size cell.kind.Carrier) 0 := by
    refine List.eq_replicate_iff.mpr ⟨length_read .., fun byte member => ?_⟩
    obtain ⟨index, -, rfl⟩ := List.mem_map.mp member
    exact vacant _ (Nat.le_trans free (Nat.le_add_right ..))
  rw [get, zeros, Cell.zero]

/-- Writing to a cell before the vacant part of an area leaves that part vacant. -/
theorem put (vacant : area.Vacant start) {cell : Cell} (below : cell.limit ≤ start)
    (item : cell.kind.Carrier) :
    (area.put cell.offset item).Vacant start := by
  intro position beyond
  have sized := Item.length_encode item
  have outside : ¬(cell.offset.position ≤ position ∧
      position < cell.offset.position + (Item.encode item).length) := by
    unfold Cell.limit at below
    omega
  have fits : cell.offset.position + (Item.encode item).length ≤ size := by
    rw [sized]
    exact cell.offset.inside
  rw [Area.put, byte_write _ _ _ fits, if_neg outside]
  exact vacant position beyond

end Vacant

/-- Writing to a cell leaves those alone that share no byte with it. -/
theorem get_put_of_apart (area : Area) {cell other : Cell} (apart : cell.Apart other)
    (item : cell.kind.Carrier) :
    (area.put cell.offset item).get other.offset = area.get other.offset :=
  get_put_of_disjoint area cell.offset item other.offset apart.symm

end Area

end HartBoot
