import HartBoot.Checked
import HartBoot.Scratch.Storage

/-! # Reservations in checked arithmetic

An allocator elsewhere counts without bound, and divides to find the next aligned place. Here it is
kept in two words, and a place is aligned by adding a mask of ones and clearing these bits again. A
place with a bound that does not fit into a word is refused like one that does not fit into an area,
whereas a count of places that does not fit stops the machine.
-/

namespace HartBoot

namespace Word

/-- Sum of two words, unless it does not fit. -/
def sum? (left right : Word) : Option Word :=
  if left.toNat + right.toNat ≤ ones.toNat then some (left + right) else none

/-- Sum of two words. -/
def add? (left right : Word) : Except Overflow Word :=
  if left.toNat + right.toNat ≤ ones.toNat then .ok (left + right) else .error .add

end Word

/-- The words in which a machine keeps an allocator. -/
structure Bump where
  /-- First byte that is still free. -/
  next : Word := 0
  /-- Number of places handed out. -/
  allocated : Word := 0
deriving DecidableEq, Repr

namespace Bump

/-- First byte of the next place that has none of the bits of a mask in its number, and the byte
past its end, if an area has room for it. -/
def place? (bump : Bump) (size mask : Word) : Option (Word × Word) := do
  let start := (← Word.sum? bump.next mask) &&& ~~~mask
  let limit ← Word.sum? start size
  if Area.size < limit.toNat then none else some (start, limit)

/-- Reserve an aligned place of the given size. -/
def alloc (bump : Bump) (size align : Word) : Except Overflow (Option Word × Bump) := do
  if Area.alignment < align.toNat then return (none, bump)
  else
    match bump.place? size (← Word.subtract? align 1) with
    | none => return (none, bump)
    | some (start, limit) =>
      let allocated ← Word.add? bump.allocated 1
      return (some start, { next := limit, allocated })

/-- Number of bytes still free, whatever their alignment. -/
def remaining? (bump : Bump) : Except Overflow Word :=
  Word.subtract? (BitVec.ofNat 64 Area.size) bump.next

/-- What a call on scratch memory makes of the words. Reading and writing leave them alone. -/
def run (bump : Bump) : ScratchCall → Except Overflow Bump
  | .alloc kind => do
    let (_start, after) ← bump.alloc (BitVec.ofNat 64 (Item.size kind.Carrier))
      (BitVec.ofNat 64 (Item.align kind.Carrier))
    return after
  | .get _ _ | .put _ _ _ => return bump

/-- What calls in turn make of the words. -/
def runAll (bump : Bump) (calls : List ScratchCall) : Except Overflow Bump := calls.foldlM run bump

end Bump

/-- The words of an allocator. -/
def Allocator.bump (allocator : Allocator) : Bump where
  next := BitVec.ofNat 64 allocator.next
  allocated := BitVec.ofNat 64 allocator.allocated

/-- A size and an alignment that a machine can have: both are words, and the alignment is a power of
two. -/
structure ItemKind.Addressable (kind : ItemKind) : Prop where
  size_le : Item.size kind.Carrier ≤ Word.ones.toNat
  align_eq : ∃ exponent < Word.width, Item.align kind.Carrier = 1 <<< exponent

/-- A call on scratch memory that asks for nothing else than such items. -/
def ScratchCall.Addressable : ScratchCall → Prop
  | .alloc kind => kind.Addressable
  | .get _ _ | .put _ _ _ => True

end HartBoot
