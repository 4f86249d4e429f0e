import HartBoot.Field

/-! # Fields bit by bit

Replacing a field changes the bits of its mask and no others, and reading it back tells these bits.
Fields with disjoint masks are therefore independent of each other, whatever the register held. This
does not depend on the bits of a mask being next to each other: the value is laid over the register
from the lowest bit of the mask on, and what meets a gap or the end of the register is lost.
-/

namespace HartBoot

namespace Field

variable {field : Field} {left right : Word} {position : Nat}

theorem low_le (masked : field.mask.getLsbD position = true) : field.low ≤ position := by
  apply Nat.le_of_not_lt
  intro below
  rw [Word.getLsbD_of_lt_trailingZeros below] at masked
  cases masked

theorem getLsbD_insert (field : Field) (register value : Word) (position : Nat) :
    (field.insert register value).getLsbD position =
      if field.mask.getLsbD position then value.getLsbD (position - field.low)
      else register.getLsbD position := by
  simp only [insert, BitVec.getLsbD_or, BitVec.getLsbD_and, BitVec.getLsbD_not,
    BitVec.getLsbD_shiftLeft]
  cases masked : field.mask.getLsbD position with
  | true =>
    have inside : position < 64 := BitVec.lt_of_getLsbD masked
    have above : ¬position < field.low := Nat.not_lt.mpr (low_le masked)
    simp only [inside, above, decide_true, decide_false, Bool.not_true, Bool.not_false,
      Bool.and_false, Bool.false_or, Bool.true_and, Bool.and_true, if_true]
  | false =>
    by_cases inside : position < 64
    · simp only [inside, decide_true, Bool.not_false, Bool.and_true, Bool.and_false, Bool.or_false,
        Bool.false_eq_true, if_false]
    · simp [BitVec.getLsbD_of_ge _ _ (Nat.le_of_not_lt inside)]

theorem getLsbD_extract (field : Field) (register : Word) (position : Nat) :
    (field.extract register).getLsbD position =
      (register.getLsbD (field.low + position) && field.mask.getLsbD (field.low + position)) := by
  rw [extract, BitVec.getLsbD_ushiftRight, BitVec.getLsbD_and]

/-- A field depends on the bits of its mask alone. -/
theorem extract_congr (same : left &&& field.mask = right &&& field.mask) :
    field.extract left = field.extract right := by
  rw [extract, extract, same]

/-- A field tells all bits of its mask. -/
theorem getLsbD_eq_of_extract_eq (same : field.extract left = field.extract right)
    (masked : field.mask.getLsbD position = true) :
    left.getLsbD position = right.getLsbD position := by
  have above := low_le masked
  have bits := congrArg (BitVec.getLsbD · (position - field.low)) same
  simpa only [getLsbD_extract, Nat.add_sub_cancel' above, masked, Bool.and_true] using bits

/-- Of the value a field has the bits that its mask has when it is shifted down to the lowest bit. -/
theorem extract_insert (field : Field) (register value : Word) :
    field.extract (field.insert register value) = value &&& (field.mask >>> field.low) := by
  apply BitVec.eq_of_getLsbD_eq
  intro position _
  rw [getLsbD_extract, getLsbD_insert, BitVec.getLsbD_and, BitVec.getLsbD_ushiftRight]
  cases field.mask.getLsbD (field.low + position) with
  | false => rw [Bool.and_false, Bool.and_false]
  | true => rw [if_pos rfl, Nat.add_sub_cancel_left]

/-- Putting back what a field holds changes nothing. -/
theorem insert_extract (field : Field) (register : Word) :
    field.insert register (field.extract register) = register := by
  apply BitVec.eq_of_getLsbD_eq
  intro position _
  rw [getLsbD_insert]
  cases masked : field.mask.getLsbD position with
  | false => rw [if_neg Bool.false_ne_true]
  | true =>
    rw [if_pos rfl, getLsbD_extract, Nat.add_sub_cancel' (low_le masked), masked, Bool.and_true]

/-- Of two values of a field, the later one stays. -/
theorem insert_insert (field : Field) (register first second : Word) :
    field.insert (field.insert register first) second = field.insert register second := by
  apply BitVec.eq_of_getLsbD_eq
  intro position _
  rw [getLsbD_insert, getLsbD_insert, getLsbD_insert]
  cases field.mask.getLsbD position with
  | false => rw [if_neg Bool.false_ne_true, if_neg Bool.false_ne_true, if_neg Bool.false_ne_true]
  | true => rw [if_pos rfl, if_pos rfl]

/-- No bit is in both of two disjoint masks. -/
theorem getLsbD_of_disjoint {mask other : Word} (apart : mask &&& other = 0)
    (masked : mask.getLsbD position = true) : other.getLsbD position = false := by
  have both := congrArg (BitVec.getLsbD · position) apart
  simpa only [BitVec.getLsbD_and, masked, Bool.true_and, BitVec.ofNat_eq_ofNat,
    BitVec.getLsbD_zero] using both

/-- Disjoint fields are replaced in any order. -/
theorem insert_comm {other : Field} (apart : field.mask &&& other.mask = 0)
    (register value next : Word) :
    other.insert (field.insert register value) next =
      field.insert (other.insert register next) value := by
  apply BitVec.eq_of_getLsbD_eq
  intro position _
  simp only [getLsbD_insert]
  -- where the first field has a bit the second one has none, so at most one of them decides
  cases masked : field.mask.getLsbD position with
  | false => simp only [Bool.false_eq_true, if_false]
  | true => simp only [getLsbD_of_disjoint apart masked, Bool.false_eq_true, if_false, if_true]

/-- Replacing a field leaves the bits of a disjoint mask alone. -/
theorem insert_and_of_disjoint {mask : Word} (apart : field.mask &&& mask = 0)
    (register value : Word) : field.insert register value &&& mask = register &&& mask := by
  apply BitVec.eq_of_getLsbD_eq
  intro position inside
  rw [BitVec.getLsbD_and, BitVec.getLsbD_and, getLsbD_insert]
  cases masked : field.mask.getLsbD position with
  | true => rw [getLsbD_of_disjoint apart masked, Bool.and_false, Bool.and_false]
  | false => rw [if_neg Bool.false_ne_true]

/-- Replacing a field leaves a disjoint one alone. -/
theorem extract_insert_of_disjoint {other : Field} (apart : field.mask &&& other.mask = 0)
    (register value : Word) :
    other.extract (field.insert register value) = other.extract register :=
  extract_congr (insert_and_of_disjoint apart register value)

/-- Replacing a field leaves the bits outside of it alone. -/
theorem insert_and_not_mask (field : Field) (register value : Word) :
    field.insert register value &&& ~~~field.mask = register &&& ~~~field.mask :=
  insert_and_of_disjoint (BitVec.and_not_self field.mask) register value

end Field

/-- An empty mask asks for a shift by the width of a word. -/
theorem Word.not_trailingZeros_zero_lt : ¬trailingZeros 0 < width :=
  fun bound => (trailingZeros_lt_width_iff 0).mp bound rfl

theorem insertField_eq_error_iff {register mask value : Word} {overflow : Overflow} :
    insertField register mask value = .error overflow ↔ mask = 0 ∧ overflow = .shiftLeft := by
  by_cases empty : mask = 0
  · subst empty
    have refused : insertField register 0 value = .error .shiftLeft := by
      rw [insertField, Word.shiftLeft?, if_neg Word.not_trailingZeros_zero_lt]
      rfl
    rw [refused, Except.error.injEq, eq_self, true_and, eq_comm]
  · have accepted := insertField_mask { mask, mask_ne_zero := empty } register value
    constructor
    · intro refused
      cases accepted.symm.trans refused
    · intro both
      exact absurd both.1 empty

theorem extractField_eq_error_iff {register mask : Word} {overflow : Overflow} :
    extractField register mask = .error overflow ↔ mask = 0 ∧ overflow = .shiftRight := by
  by_cases empty : mask = 0
  · subst empty
    have refused : extractField register 0 = .error .shiftRight := by
      rw [extractField, Word.shiftRight?, if_neg Word.not_trailingZeros_zero_lt]
    rw [refused, Except.error.injEq, eq_self, true_and, eq_comm]
  · have accepted := extractField_mask { mask, mask_ne_zero := empty } register
    constructor
    · intro refused
      cases accepted.symm.trans refused
    · intro both
      exact absurd both.1 empty

/-- Only an empty mask is refused, by the shift that would go too far. What is read under any other
mask is what was written there, as far as the mask has room for it, and what is written is all that
changes: reading and then writing changes nothing, of two writes the later one stays, the bits outside
of the mask are kept, and writes under disjoint masks do not depend on each other. -/
theorem insertField_laws (mask : Word) :
    (∀ register value overflow,
      insertField register mask value = .error overflow ↔ mask = 0 ∧ overflow = .shiftLeft) ∧
    (∀ register overflow,
      extractField register mask = .error overflow ↔ mask = 0 ∧ overflow = .shiftRight) ∧
    (mask ≠ 0 → ∀ register value next : Word,
      (do extractField (← insertField register mask value) mask) =
        .ok (value &&& (mask >>> Word.trailingZeros mask)) ∧
      (do insertField register mask (← extractField register mask)) = .ok register ∧
      (do insertField (← insertField register mask value) mask next) =
        insertField register mask next ∧
      (∃ after, insertField register mask value = .ok after ∧
        after &&& ~~~mask = register &&& ~~~mask) ∧
      ∀ other : Word, other ≠ 0 → mask &&& other = 0 →
        (do insertField (← insertField register mask value) other next) =
          (do insertField (← insertField register other next) mask value) ∧
        (do extractField (← insertField register mask value) other) =
          extractField register other) := by
  refine ⟨fun _ _ _ => insertField_eq_error_iff, fun _ _ => extractField_eq_error_iff, ?_⟩
  intro nonempty register value next
  let field : Field := { mask, mask_ne_zero := nonempty }
  have inserted (register value : Word) :
      insertField register mask value = .ok (field.insert register value) :=
    insertField_mask field register value
  have extracted (register : Word) : extractField register mask = .ok (field.extract register) :=
    extractField_mask field register
  refine ⟨?_, ?_, ?_, ?_, ?_⟩
  · rw [inserted]
    exact (extracted _).trans (congrArg Except.ok (field.extract_insert register value))
  · rw [extracted]
    exact (inserted _ _).trans (congrArg Except.ok (field.insert_extract register))
  · rw [inserted, inserted, ← field.insert_insert register value next]
    exact inserted _ _
  · exact ⟨field.insert register value, inserted _ _, field.insert_and_not_mask register value⟩
  · intro other present apart
    let second : Field := { mask := other, mask_ne_zero := present }
    have placed (register value : Word) :
        insertField register other value = .ok (second.insert register value) :=
      insertField_mask second register value
    have read (register : Word) : extractField register other = .ok (second.extract register) :=
      extractField_mask second register
    have swapped : second.insert (field.insert register value) next =
        field.insert (second.insert register next) value :=
      Field.insert_comm apart register value next
    have spared : second.extract (field.insert register value) = second.extract register :=
      Field.extract_insert_of_disjoint apart register value
    refine ⟨?_, ?_⟩
    · rw [inserted, placed]
      exact (placed _ _).trans ((congrArg Except.ok swapped).trans (inserted _ _).symm)
    · rw [inserted, read]
      exact (read _).trans (congrArg Except.ok spared)

/-- A mask with gaps and with the highest bit, next to one that fills some of its gaps. -/
theorem insertField_laws_gapped :
    let mask : Word := 0x8000000000000050
    let other : Word := 0x00ff00000000002c
    (mask ≠ 0 ∧ other ≠ 0 ∧ mask &&& other = 0) ∧
    (do extractField (← insertField 0x1111 mask Word.ones) mask) = .ok 0x0800000000000005 ∧
    (do insertField 0x1111 mask (← extractField 0x1111 mask)) = .ok 0x1111 ∧
    (do insertField (← insertField 0x1111 mask Word.ones) other 3) =
      (do insertField (← insertField 0x1111 other 3) mask Word.ones) := by
  intro mask other
  have nonempty : mask ≠ 0 := by decide
  have present : other ≠ 0 := by decide
  have apart : mask &&& other = 0 := by decide
  obtain ⟨-, -, laws⟩ := insertField_laws mask
  obtain ⟨read, kept, -, -, independent⟩ := laws nonempty 0x1111 Word.ones 3
  have room : Word.ones &&& (mask >>> Word.trailingZeros mask) = 0x0800000000000005 := by
    decide +kernel
  exact ⟨⟨nonempty, present, apart⟩, read.trans (congrArg Except.ok room), kept,
    (independent other present apart).1⟩

end HartBoot
