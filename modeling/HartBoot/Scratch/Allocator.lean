import HartBoot.Scratch.Item

/-! # Reserving scratch memory

Places for items are handed out from the start of the area towards its end and are never given
back. A request that asks for too much alignment, or for more than is left, is refused and changes
nothing, so that a smaller one can still succeed.
-/

namespace HartBoot

/-- The smallest multiple of a unit that is not below a number. -/
def roundUp (number unit : Nat) : Nat := (number + (unit - 1)) / unit * unit

theorem dvd_roundUp (number unit : Nat) : unit ∣ roundUp number unit := Nat.dvd_mul_left ..

theorem le_roundUp (number : Nat) {unit : Nat} (positive : 0 < unit) :
    number ≤ roundUp number unit := by
  have split := Nat.div_add_mod (number + (unit - 1)) unit
  have small := Nat.mod_lt (number + (unit - 1)) positive
  rw [Nat.mul_comm] at split
  unfold roundUp
  omega

/-- Rounding up wastes less than one unit. -/
theorem roundUp_lt (number : Nat) {unit : Nat} (positive : 0 < unit) :
    roundUp number unit < number + unit := by
  have split := Nat.div_mul_le_self (number + (unit - 1)) unit
  unfold roundUp
  omega

/-- What has been reserved of the scratch memory of every hart. -/
structure Allocator where
  /-- First byte that is still free. -/
  next : Nat := 0
  /-- Number of places handed out. -/
  allocated : Nat := 0
  next_le : next ≤ Area.size := by exact Nat.zero_le _
deriving DecidableEq, Repr

namespace Allocator

instance : Inhabited Allocator := ⟨{}⟩

/-- Number of bytes still free, whatever their alignment. -/
def remaining (allocator : Allocator) : Nat := Area.size - allocator.next

/-- Reserve an aligned place of the given size. -/
def place? (allocator : Allocator) (size align : Nat) : Option (Nat × Allocator) :=
  if Area.alignment < align then none
  else
    let position := roundUp allocator.next align
    if fits : position + size ≤ Area.size then
      some (position,
        { next := position + size, allocated := allocator.allocated + 1, next_le := fits })
    else none

/-- A place that was handed out is aligned and lies inside the area. -/
theorem place?_some {allocator rest : Allocator} {size align position : Nat}
    (placed : allocator.place? size align = some (position, rest)) :
    align ∣ position ∧ position + size ≤ Area.size := by
  unfold place? at placed
  split at placed
  · simp at placed
  · dsimp only at placed
    split at placed
    next fits =>
      simp only [Option.some.injEq, Prod.mk.injEq] at placed
      rw [← placed.1]
      exact ⟨dvd_roundUp .., fits⟩
    next => simp at placed

/-- Reserve a place for an item. -/
def alloc? (allocator : Allocator) (α : Type) [Item α] : Option (Offset α × Allocator) :=
  match placed : allocator.place? (Item.size α) (Item.align α) with
  | some (position, rest) =>
    some ({ position, inside := (place?_some placed).2, aligned := (place?_some placed).1 }, rest)
  | none => none

/-- Reserving for an item is reserving a place of its size and alignment. -/
theorem alloc?_map_position (allocator : Allocator) (α : Type) [Item α] :
    (allocator.alloc? α).map (fun result => (result.1.position, result.2)) =
      allocator.place? (Item.size α) (Item.align α) := by
  unfold alloc?
  split
  next position rest placed => simp [placed]
  next refused => simp [refused]

end Allocator

end HartBoot
