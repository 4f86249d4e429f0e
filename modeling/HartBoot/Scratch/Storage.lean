import HartBoot.Scratch.Cell

/-! # Scratch memory in use

The scratch memory of a machine is one allocator and the arenas that its offsets are used in. It is
used by calls: an offset is asked for, or the item of a cell is read or replaced in the area of one
hart. Calls are made with offsets that were handed out, in areas that exist.
-/

namespace HartBoot

/-- The scratch area of one hart of one arena, by their numbers. -/
structure Place where
  arena : Nat
  hart : Nat
deriving DecidableEq, Repr

theorem Arena.get?_put (arena : Arena) (hart other : Nat) (area : Area) :
    (arena.put hart area).get? other =
      if other = hart then (arena.get? hart).map fun _ => area else arena.get? other := by
  simp only [get?, put, Array.getElem?_setIfInBounds]
  by_cases same : other = hart
  · subst same
    by_cases inside : other < arena.areas.size <;> simp [inside]
  · simp [same, Ne.symm same]

/-- The scratch memory of a machine. -/
structure Storage where
  offsets : Allocator := {}
  /-- The cells that were handed out, the latest one first. -/
  cells : List Cell := []
  arenas : List Arena

/-- A call on scratch memory. -/
inductive ScratchCall where
  | alloc (kind : ItemKind)
  | get (place : Place) (cell : Cell)
  | put (place : Place) (cell : Cell) (item : cell.kind.Carrier)

namespace Storage

/-- Arenas of the given numbers of harts, of which nothing has been used. -/
def blank (harts : List Nat) : Storage where
  arenas := harts.map Arena.blank

/-- The area at a place, if there is one. -/
def area? (storage : Storage) (place : Place) : Option Area :=
  storage.arenas[place.arena]?.bind (·.get? place.hart)

/-- The item of a cell at a place, if there is an area. -/
def item? (storage : Storage) (place : Place) (cell : Cell) : Option cell.kind.Carrier :=
  (storage.area? place).map (·.get cell.offset)

/-- Replace the area at a place, if there is one. -/
def setArea (storage : Storage) (place : Place) (area : Area) : Storage :=
  { storage with arenas := storage.arenas.modify place.arena (·.put place.hart area) }

/-- The memory after a call. What a reading call finds is told by `item?`. -/
def run (storage : Storage) : ScratchCall → Storage
  | .alloc kind =>
    match storage.offsets.alloc? kind.Carrier with
    | some (offset, offsets) => { storage with offsets, cells := ⟨kind, offset⟩ :: storage.cells }
    | none => storage
  | .get _ _ => storage
  | .put place cell item =>
    match storage.area? place with
    | some area => storage.setArea place (area.put cell.offset item)
    | none => storage

/-- The memory after calls in turn. -/
def runAll (storage : Storage) (calls : List ScratchCall) : Storage := calls.foldl run storage

/-- A call is made with an offset that was handed out, in an area that exists. -/
def Permits (storage : Storage) : ScratchCall → Prop
  | .alloc _ => True
  | .get place cell => cell ∈ storage.cells ∧ (storage.area? place).isSome = true
  | .put place cell _ => cell ∈ storage.cells ∧ (storage.area? place).isSome = true

instance (storage : Storage) : (call : ScratchCall) → Decidable (storage.Permits call)
  | .alloc _ => inferInstanceAs (Decidable True)
  | .get _ _ => inferInstanceAs (Decidable (_ ∧ _))
  | .put _ _ _ => inferInstanceAs (Decidable (_ ∧ _))

/-- Each call of a sequence is permitted when its turn comes. -/
def PermitsAll : Storage → List ScratchCall → Prop
  | _, [] => True
  | storage, call :: rest => storage.Permits call ∧ (storage.run call).PermitsAll rest

instance decidablePermitsAll (storage : Storage) :
    (calls : List ScratchCall) → Decidable (storage.PermitsAll calls)
  | [] => inferInstanceAs (Decidable True)
  | call :: rest =>
    have := decidablePermitsAll (storage.run call) rest
    inferInstanceAs (Decidable (_ ∧ _))

theorem area?_setArea (storage : Storage) (place other : Place) (area : Area) :
    (storage.setArea place area).area? other =
      if other = place then (storage.area? place).map fun _ => area else storage.area? other := by
  obtain ⟨arena, hart⟩ := place
  obtain ⟨otherArena, otherHart⟩ := other
  simp only [area?, setArea, List.getElem?_modify]
  by_cases sameArena : otherArena = arena
  · subst sameArena
    cases storage.arenas[otherArena]? with
    | none => simp
    | some found => simp [Arena.get?_put, Place.mk.injEq]
  · simp [sameArena, Ne.symm sameArena]

/-- Every area of fresh arenas is filled with zeros. -/
theorem area?_blank {harts : List Nat} {place : Place} {area : Area}
    (found : (blank harts).area? place = some area) : area = .blank := by
  simp only [area?, blank, List.getElem?_map, Option.bind_eq_some_iff,
    Option.map_eq_some_iff, Arena.get?, Arena.blank] at found
  obtain ⟨_, ⟨_, -, rfl⟩, found⟩ := found
  rw [Array.getElem?_replicate] at found
  split at found
  · exact (Option.some.inj found).symm
  · cases found

end Storage

end HartBoot
