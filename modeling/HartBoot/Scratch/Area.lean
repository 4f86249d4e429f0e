import HartBoot.Byte

/-! # Scratch areas

Every hart owns an area of scratch memory of one fixed size, filled with zeros at first. The area
is seen byte by byte; writing a run of bytes changes those bytes and no others, and a run that
goes past the end is cut there.
-/

namespace HartBoot

/-- Scratch memory of one hart. -/
structure Area where
  bytes : Vector Byte 4096
deriving DecidableEq

namespace Area

/-- Number of bytes in an area. -/
def size : Nat := 4096

/-- Alignment of every area, and the largest alignment of anything in it. -/
def alignment : Nat := 16

/-- An area filled with zeros. -/
def blank : Area := ⟨Vector.replicate 4096 0⟩

/-- The byte at a position, or zero past the end. -/
def byte (area : Area) (position : Nat) : Byte := area.bytes[position]?.getD 0

/-- The bytes from a position onwards. -/
def read (area : Area) (position count : Nat) : List Byte :=
  (List.range count).map fun index => area.byte (position + index)

/-- Replace the bytes from a position onwards. -/
def write (area : Area) (position : Nat) (content : List Byte) : Area :=
  let fresh := content.toArray
  ⟨area.bytes.mapIdx fun index old =>
    if position ≤ index then fresh[index - position]?.getD old else old⟩

/-- How an area is shown in diagnostics. -/
def text : String := "Scratch \x7b size: " ++ toString size ++ " \x7d"

@[simp] theorem byte_blank (position : Nat) : blank.byte position = 0 := by
  simp only [byte, blank, Vector.getElem?_replicate]
  split <;> rfl

@[simp] theorem length_read (area : Area) (position count : Nat) :
    (area.read position count).length = count := by
  simp [read]

theorem getElem?_read (area : Area) (position count index : Nat) :
    (area.read position count)[index]? =
      if index < count then some (area.byte (position + index)) else none := by
  simp only [read, List.getElem?_map]
  split <;> simp_all

/-- A written byte is found where it was written, and all others are as before. -/
theorem byte_write (area : Area) (position : Nat) (content : List Byte)
    (fits : position + content.length ≤ size) (index : Nat) :
    (area.write position content).byte index =
      if position ≤ index ∧ index < position + content.length then
        content.getD (index - position) 0
      else area.byte index := by
  simp only [byte, write, Vector.getElem?_mapIdx]
  by_cases inArea : index < 4096
  · by_cases after : position ≤ index
    · by_cases before : index < position + content.length
      · have within : index - position < content.length := by omega
        simp [inArea, after, before, within, List.getD]
      · have beyond : ¬index - position < content.length := by omega
        simp [inArea, after, before, beyond]
    · simp [inArea, after]
  · have past : ¬(position ≤ index ∧ index < position + content.length) := by
      simp only [size] at fits
      omega
    simp [inArea, past]

/-- What was written is read back. -/
theorem read_write (area : Area) (position : Nat) (content : List Byte)
    (fits : position + content.length ≤ size) :
    (area.write position content).read position content.length = content := by
  apply List.ext_getElem?
  intro index
  rw [getElem?_read, byte_write _ _ _ fits]
  by_cases inside : index < content.length
  · simp [inside, List.getD]
  · simp [inside]

/-- A write leaves disjoint bytes alone. -/
theorem read_write_of_disjoint (area : Area) (position : Nat) (content : List Byte)
    (fits : position + content.length ≤ size) (start count : Nat)
    (disjoint : start + count ≤ position ∨ position + content.length ≤ start) :
    (area.write position content).read start count = area.read start count := by
  apply List.ext_getElem?
  intro index
  rw [getElem?_read, getElem?_read, byte_write _ _ _ fits]
  by_cases inside : index < count
  · have outside : ¬(position ≤ start + index ∧ start + index < position + content.length) := by
      omega
    simp [inside, outside]
  · simp [inside]

end Area

/-- The scratch areas of a group of harts, by hart. -/
structure Arena where
  areas : Array Area
deriving DecidableEq

namespace Arena

/-- Number of harts that an arena is made for by default. -/
def defaultHarts : Nat := 8

/-- An arena of areas filled with zeros. -/
def blank (harts : Nat) : Arena := ⟨Array.replicate harts .blank⟩

/-- Number of harts of an arena. -/
def harts (arena : Arena) : Nat := arena.areas.size

/-- The area of a hart, if the arena has that hart. -/
def get? (arena : Arena) (hart : Nat) : Option Area := arena.areas[hart]?

/-- Replace the area of a hart, if the arena has that hart. -/
def put (arena : Arena) (hart : Nat) (area : Area) : Arena :=
  ⟨arena.areas.setIfInBounds hart area⟩

/-- How an arena is shown in diagnostics. -/
def text (arena : Arena) : String :=
  "ScratchArena \x7b harts: ["
    ++ String.intercalate ", " (List.replicate arena.harts Area.text) ++ "] \x7d"

end Arena

end HartBoot
