import HartBoot.Word

/-! # Register fields

A field of a register is selected by a mask with at least one bit set, and its value counts from
the lowest bit of the mask. Masks known in advance form a field once and for all. Masks that
arrive as plain words are shifted by as many places as they have zeros at the bottom, which is
one place too many when the mask is empty, so an empty mask is refused.
-/

namespace HartBoot

/-- A field of a register, as the set of bits that it occupies. -/
structure Field where
  mask : Word
  mask_ne_zero : mask ≠ 0 := by decide

namespace Field

/-- Place of the field's lowest bit. -/
def low (field : Field) : Nat := Word.trailingZeros field.mask

/-- Replace the field of a register. Bits of the value that the field has no room for are lost. -/
def insert (field : Field) (register value : Word) : Word :=
  (register &&& ~~~field.mask) ||| ((value <<< field.low) &&& field.mask)

/-- Read the field of a register. -/
def extract (field : Field) (register : Word) : Word :=
  (register &&& field.mask) >>> field.low

theorem low_lt (field : Field) : field.low < Word.width :=
  (Word.trailingZeros_lt_width_iff field.mask).mpr field.mask_ne_zero

end Field

/-- Replace the bits of a register that a mask selects, refusing an empty mask. -/
def insertField (register mask value : Word) : Except Overflow Word := do
  let placed ← Word.shiftLeft? value (Word.trailingZeros mask)
  return (register &&& ~~~mask) ||| (placed &&& mask)

/-- Read the bits of a register that a mask selects, refusing an empty mask. -/
def extractField (register mask : Word) : Except Overflow Word :=
  Word.shiftRight? (register &&& mask) (Word.trailingZeros mask)

theorem insertField_mask (field : Field) (register value : Word) :
    insertField register field.mask value = .ok (field.insert register value) := by
  have bound := field.low_lt
  unfold Field.low at bound
  rw [insertField, Word.shiftLeft?, if_pos bound]
  rfl

theorem extractField_mask (field : Field) (register : Word) :
    extractField register field.mask = .ok (field.extract register) := by
  have bound := field.low_lt
  unfold Field.low at bound
  simp [extractField, Field.extract, Field.low, Word.shiftRight?, bound]

end HartBoot
