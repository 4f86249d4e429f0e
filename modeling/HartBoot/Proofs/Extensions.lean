import Mathlib
import HartBoot.Misa

/-! # A register advertises what it was built from

Each character of a list sets one bit of the register, small letters counting as capitals, and these
bits are all that the list adds to it. The bits of letters are the lowest ones, so what other
characters set, up to the bits that tell the width, is never taken for a letter and never hides one.
Order and repetition make no difference to a register. They do to a refusal: the first character
without a bit decides how the list is refused.
-/

namespace HartBoot

/-- The word of a single bit, computed as a number. -/
theorem Word.ofNat_one_shiftLeft (position : Nat) :
    ((1 <<< position : Nat) : Word) = BitVec.twoPow 64 position := by
  apply BitVec.eq_of_toNat_eq
  rw [BitVec.natCast_eq_ofNat, BitVec.toNat_ofNat, BitVec.toNat_twoPow, Nat.one_shiftLeft]

namespace Misa

variable {extensions : List Char} {operation : Overflow}

/-! ## Characters and their bits -/

/-- A character that stands for a bit of the register. -/
def HasMark (character : Char) : Prop :=
  'A'.toNat ≤ character.toUpper.toNat ∧ character.toUpper.toNat < 'A'.toNat + Word.width

/-- A marked character sets the bit at its distance from the letter A. -/
theorem mark?_of_hasMark {character : Char} (marked : HasMark character) :
    ∃ mark, mark? character = .ok mark ∧ ∀ position,
      mark.getLsbD position = true ↔ character.toUpper.toNat = 'A'.toNat + position := by
  obtain ⟨above, below⟩ := marked
  have fits : character.toUpper.toNat - 'A'.toNat < Word.width := by omega
  refine ⟨BitVec.twoPow 64 (character.toUpper.toNat - 'A'.toNat), ?_, fun position => ?_⟩
  · rw [mark?, if_neg (Nat.not_lt.mpr above), Word.shiftLeft?, if_pos fits, BitVec.twoPow_eq]
    rfl
  · have inside : character.toUpper.toNat - 'A'.toNat < 64 := fits
    rw [BitVec.getLsbD_twoPow, decide_eq_true inside, Bool.true_and, decide_eq_true_eq]
    omega

theorem mark?_eq_error_iff {character : Char} :
    mark? character = .error operation ↔
      character.toUpper.toNat < 'A'.toNat ∧ operation = .subtract ∨
        'A'.toNat + Word.width ≤ character.toUpper.toNat ∧ operation = .shiftLeft := by
  by_cases below : character.toUpper.toNat < 'A'.toNat
  · have near : ¬ 'A'.toNat + Word.width ≤ character.toUpper.toNat := by omega
    simp only [mark?, below, near, if_true, true_and, false_and, or_false, Except.error.injEq,
      eq_comm]
  · by_cases far : 'A'.toNat + Word.width ≤ character.toUpper.toNat
    · have beyond : ¬character.toUpper.toNat - 'A'.toNat < Word.width := by omega
      simp only [mark?, Word.shiftLeft?, below, far, beyond, if_false, true_and, false_and, false_or,
        Except.error.injEq, eq_comm]
    · have within : character.toUpper.toNat - 'A'.toNat < Word.width := by omega
      simp only [mark?, Word.shiftLeft?, below, far, within, if_false, if_true, false_and, or_false,
        reduceCtorEq]

/-- A character that does not stand for a bit is too low or too high. -/
theorem not_hasMark_iff {character : Char} :
    ¬HasMark character ↔ character.toUpper.toNat < 'A'.toNat ∨
      'A'.toNat + Word.width ≤ character.toUpper.toNat := by
  rw [HasMark, not_and_or, Nat.not_le, Nat.not_lt]

theorem hasMark_of_mark? {character : Char} {mark : Word} (placed : mark? character = .ok mark) :
    HasMark character := by
  by_contra unmarked
  have refused : ∃ fault, mark? character = .error fault := by
    rcases not_hasMark_iff.mp unmarked with low | high
    · exact ⟨.subtract, mark?_eq_error_iff.mpr (.inl ⟨low, rfl⟩)⟩
    · exact ⟨.shiftLeft, mark?_eq_error_iff.mpr (.inr ⟨high, rfl⟩)⟩
  obtain ⟨fault, refused⟩ := refused
  rw [placed] at refused
  cases refused

/-- Two characters are one letter if the first is the second one, large or small. -/
theorem toUpper_eq_toUpper_iff (given letter : Char) :
    given.toUpper = letter.toUpper ↔ given = letter.toUpper ∨ given = letter.toLower := by
  constructor
  · intro same
    by_cases small : given.isLower
    · right
      calc
        given = given.toLower :=
          (Char.toLower_eq_of_not_isUpper (Char.not_isUpper_of_isLower small)).symm
        _ = given.toUpper.toLower := (Char.toLower_toUpper_eq_toLower given).symm
        _ = letter.toLower := by rw [same, Char.toLower_toUpper_eq_toLower]
    · left
      rw [← same, Char.toUpper_eq_of_not_isLower small]
  · rintro (rfl | rfl)
    · exact Char.toUpper_toUpper_eq_toUpper letter
    · exact Char.toUpper_toLower_eq_toUpper letter

/-- Letters have the bits at their distance from the letter A, and other characters have none. -/
theorem bit?_eq_some_iff {character : Char} {bit : Nat} :
    bit? character = some bit ↔
      character.isAlpha = true ∧ character.toUpper.toNat = 'A'.toNat + bit := by
  have capital : 'A' ≤ character ∧ character ≤ 'Z' ↔ character.isUpper = true := by
    simp [Char.isUpper, Char.le_def]
  have uncapital : 'a' ≤ character ∧ character ≤ 'z' ↔ character.isLower = true := by
    simp [Char.isLower, Char.le_def]
  simp only [bit?, capital, uncapital, Char.isAlpha]
  by_cases large : character.isUpper = true
  · have same := Char.toUpper_eq_of_not_isLower (Char.not_isLower_of_isUpper large)
    have first : 'A'.toNat ≤ character.toNat := Char.le_def.mp (capital.mpr large).1
    simp only [large, same, if_true, Bool.true_or, Option.some.injEq, true_and]
    omega
  · by_cases small : character.isLower = true
    · have first : 97 ≤ character.toNat := Char.le_def.mp (uncapital.mpr small).1
      have last : character.toNat ≤ 122 := Char.le_def.mp (uncapital.mpr small).2
      have valid : (character.toNat - 32).isValidChar := .inl (by omega)
      have shifted : character.toUpper.toNat = character.toNat - 32 := by
        rw [Char.toUpper_eq_of_isLower small, Char.toNat_ofNat, if_pos valid]
      simp only [large, small, shifted, Bool.false_eq_true, if_false, if_true, Bool.or_true,
        Option.some.injEq, true_and, Char.reduceToNat]
      omega
    · simp [large, small]

/-- A register advertises the letters whose bits are set. -/
theorem has_iff {misa : Word} {character : Char} :
    has misa character = true ↔ ∃ bit, bit? character = some bit ∧ misa.getLsbD bit = true := by
  unfold has
  cases bit? character with
  | none => simp
  | some bit =>
    simp only [Word.ofNat_one_shiftLeft, BitVec.and_twoPow, Option.some.injEq, exists_eq_left']
    cases set : misa.getLsbD bit with
    | false => simp
    | true =>
      have single : BitVec.twoPow 64 bit ≠ 0#64 := by
        intro empty
        have bits := congrArg (BitVec.getLsbD · bit) empty
        simp [BitVec.lt_of_getLsbD set] at bits
      simp [single]

/-! ## Lists of characters -/

/-- The register with the bit of one more character. -/
def addMark? (misa : Word) (character : Char) : Except Overflow Word :=
  return misa ||| (← mark? character)

theorem ofExtensions?_eq (extensions : List Char) :
    ofExtensions? extensions = extensions.foldlM addMark? bare := rfl

/-- Marked characters add their bits to a register, and no others. -/
theorem foldlM_addMark?_of_hasMark (marked : ∀ given ∈ extensions, HasMark given) (start : Word) :
    ∃ misa, extensions.foldlM addMark? start = .ok misa ∧ ∀ position,
      misa.getLsbD position = true ↔ start.getLsbD position = true ∨
        ∃ given ∈ extensions, given.toUpper.toNat = 'A'.toNat + position := by
  induction extensions generalizing start with
  | nil => exact ⟨start, rfl, fun position => by simp⟩
  | cons first rest ih =>
    obtain ⟨mark, placed, bits⟩ := mark?_of_hasMark (marked first List.mem_cons_self)
    have others := fun given member => marked given (List.mem_cons_of_mem first member)
    obtain ⟨misa, built, advertised⟩ := ih others (start ||| mark)
    refine ⟨misa, ?_, fun position => ?_⟩
    · rw [List.foldlM_cons, addMark?, placed]
      exact built
    · rw [advertised, BitVec.getLsbD_or, Bool.or_eq_true, bits, or_assoc, List.exists_mem_cons_iff]

/-- The first character without a bit decides how a list is refused. -/
theorem foldlM_addMark?_eq_error_iff (start : Word) :
    extensions.foldlM addMark? start = .error operation ↔
      ∃ before refused after, extensions = before ++ refused :: after ∧
        (∀ given ∈ before, HasMark given) ∧ mark? refused = .error operation := by
  induction extensions generalizing start with
  | nil => simp [Pure.pure, Except.pure]
  | cons first rest ih =>
    rw [List.foldlM_cons, addMark?]
    cases placed : mark? first with
    | error fault =>
      constructor
      · intro refuses
        obtain rfl : fault = operation := Except.error.inj refuses
        exact ⟨[], first, rest, rfl, nofun, placed⟩
      · rintro ⟨before, refused, after, split, marked, refuses⟩
        cases before with
        | nil =>
          obtain ⟨rfl, -⟩ := List.cons.inj split
          exact placed.symm.trans refuses
        | cons other earlier =>
          obtain ⟨rfl, -⟩ := List.cons.inj split
          obtain ⟨mark, accepted, -⟩ := mark?_of_hasMark (marked first List.mem_cons_self)
          rw [placed] at accepted
          cases accepted
    | ok mark =>
      refine (ih (start ||| mark)).trans ⟨?_, ?_⟩
      · rintro ⟨before, refused, after, rfl, marked, refuses⟩
        exact ⟨first :: before, refused, after, rfl,
          List.forall_mem_cons.mpr ⟨hasMark_of_mark? placed, marked⟩, refuses⟩
      · rintro ⟨before, refused, after, split, marked, refuses⟩
        cases before with
        | nil =>
          obtain ⟨rfl, -⟩ := List.cons.inj split
          rw [placed] at refuses
          cases refuses
        | cons other earlier =>
          obtain ⟨rfl, remaining⟩ := List.cons.inj split
          exact ⟨earlier, refused, after, remaining, (List.forall_mem_cons.mp marked).2, refuses⟩

theorem hasMark_of_foldlM_addMark? {start misa : Word}
    (built : extensions.foldlM addMark? start = .ok misa) : ∀ given ∈ extensions, HasMark given := by
  induction extensions generalizing start with
  | nil => exact nofun
  | cons first rest ih =>
    rw [List.foldlM_cons, addMark?] at built
    cases placed : mark? first with
    | error fault =>
      rw [placed] at built
      cases built
    | ok mark =>
      rw [placed] at built
      exact List.forall_mem_cons.mpr ⟨hasMark_of_mark? placed, ih built⟩

/-- A list is refused exactly where one of its characters does not stand for a bit. -/
theorem exists_ofExtensions?_eq_error_iff :
    (∃ operation, ofExtensions? extensions = .error operation) ↔
      ∃ given ∈ extensions, ¬HasMark given := by
  constructor
  · rintro ⟨operation, refuses⟩
    obtain ⟨before, refused, after, rfl, -, fault⟩ :=
      (foldlM_addMark?_eq_error_iff bare).mp refuses
    refine ⟨refused, List.mem_append_right before List.mem_cons_self, fun marked => ?_⟩
    obtain ⟨mark, placed, -⟩ := mark?_of_hasMark marked
    rw [placed] at fault
    cases fault
  · rintro ⟨given, member, unmarked⟩
    cases built : ofExtensions? extensions with
    | error operation => exact ⟨operation, rfl⟩
    | ok misa => exact absurd (hasMark_of_foldlM_addMark? built given member) unmarked

/-- The bits of a register, one by one. -/
theorem getLsbD_ofExtensions? {misa : Word} (built : ofExtensions? extensions = .ok misa)
    (position : Nat) :
    misa.getLsbD position = true ↔ position = 63 ∨
      ∃ given ∈ extensions, given.toUpper.toNat = 'A'.toNat + position := by
  obtain ⟨again, same, bits⟩ :=
    foldlM_addMark?_of_hasMark (hasMark_of_foldlM_addMark? built) bare
  obtain rfl : misa = again := Except.ok.inj (built.symm.trans same)
  have widthBit : bare = BitVec.twoPow 64 63 := by decide
  have top : bare.getLsbD position = true ↔ position = 63 := by
    simp [widthBit, BitVec.getLsbD_twoPow, eq_comm]
  rw [bits, top]

/-- Lists of the same characters give the same register. -/
theorem ofExtensions?_congr {other : List Char} {misa : Word}
    (built : ofExtensions? extensions = .ok misa)
    (same : ∀ character, character ∈ other ↔ character ∈ extensions) :
    ofExtensions? other = .ok misa := by
  have marked : ∀ given ∈ other, HasMark given := fun given member =>
    hasMark_of_foldlM_addMark? built given ((same given).mp member)
  obtain ⟨again, rebuilt, -⟩ := foldlM_addMark?_of_hasMark marked bare
  have equal : again = misa := by
    apply BitVec.eq_of_getLsbD_eq
    intro position _
    rw [Bool.eq_iff_iff, getLsbD_ofExtensions? rebuilt, getLsbD_ofExtensions? built]
    simp only [same]
  rw [← equal]
  exact rebuilt

/-- What is advertised is what is in the list, large or small. -/
theorem has_ofExtensions? {misa : Word} (built : ofExtensions? extensions = .ok misa)
    (character : Char) :
    has misa character = true ↔ character.isAlpha = true ∧
      (character.toUpper ∈ extensions ∨ character.toLower ∈ extensions) := by
  have listed : (∃ given ∈ extensions, given.toUpper = character.toUpper) ↔
      character.toUpper ∈ extensions ∨ character.toLower ∈ extensions := by
    simp only [toUpper_eq_toUpper_iff, and_or_left, exists_or, exists_eq_right]
  rw [has_iff, ← listed]
  constructor
  · rintro ⟨bit, placed, set⟩
    obtain ⟨letter, position⟩ := bit?_eq_some_iff.mp placed
    refine ⟨letter, ?_⟩
    rcases (getLsbD_ofExtensions? built bit).mp set with rfl | ⟨given, member, same⟩
    · -- the bits of letters end far below the bits that tell the width
      have capital : character.toUpper.isUpper = true := by
        rw [Char.isUpper_toUpper_eq_isAlpha, letter]
      have bounds : 65 ≤ character.toUpper.toNat ∧ character.toUpper.toNat ≤ 90 := by
        simpa [Char.isUpper, UInt32.le_iff_toNat_le] using capital
      have beyond : 'A'.toNat + 63 = 128 := rfl
      omega
    · exact ⟨given, member, Char.toNat_inj.mp (same.trans position.symm)⟩
  · rintro ⟨letter, given, member, same⟩
    have first : 'A'.toNat ≤ character.toUpper.toNat := by
      rw [← same]
      exact (hasMark_of_foldlM_addMark? built given member).1
    obtain ⟨bit, position⟩ := Nat.exists_eq_add_of_le first
    refine ⟨bit, bit?_eq_some_iff.mpr ⟨letter, position⟩, ?_⟩
    rw [getLsbD_ofExtensions? built, ← position, ← same]
    exact .inr ⟨given, member, rfl⟩

/-- A list of characters is refused exactly where one of them, as a capital, lies below the letter A
or too far above it for a bit of the register, and the first of these decides by which operation. In
any other case the register advertises the letters in the list, whichever case they are written in
and whatever else is in the list, and every list of the same characters gives the same register. -/
theorem ofExtensions?_advertises (extensions : List Char) :
    ((∃ operation, ofExtensions? extensions = .error operation) ↔
      ∃ given ∈ extensions, given.toUpper.toNat < 'A'.toNat ∨
        'A'.toNat + 64 ≤ given.toUpper.toNat) ∧
    (∀ operation, ofExtensions? extensions = .error operation ↔
      ∃ before refused after, extensions = before ++ refused :: after ∧
        (∀ given ∈ before, 'A'.toNat ≤ given.toUpper.toNat ∧
          given.toUpper.toNat < 'A'.toNat + 64) ∧
        (refused.toUpper.toNat < 'A'.toNat ∧ operation = .subtract ∨
          'A'.toNat + 64 ≤ refused.toUpper.toNat ∧ operation = .shiftLeft)) ∧
    ∀ misa, ofExtensions? extensions = .ok misa →
      (∀ character, has misa character = true ↔ character.isAlpha = true ∧
        (character.toUpper ∈ extensions ∨ character.toLower ∈ extensions)) ∧
      ∀ other : List Char, (∀ character, character ∈ other ↔ character ∈ extensions) →
        ofExtensions? other = .ok misa := by
  refine ⟨?_, fun operation => ?_, fun misa built => ⟨?_, fun other same => ?_⟩⟩
  · rw [exists_ofExtensions?_eq_error_iff]
    simp only [not_hasMark_iff]
    rfl
  · rw [ofExtensions?_eq, foldlM_addMark?_eq_error_iff]
    simp only [mark?_eq_error_iff]
    rfl
  · exact has_ofExtensions? built
  · exact ofExtensions?_congr built same

/-- Among letters of both cases stand one between the cases and two that set bits of the width. -/
theorem ofExtensions?_advertises_cluttered :
    let cluttered := ['s', '_', 'A', '\x7f', 'a', '\u0080']
    let sorted := ['A', 'a', 'a', 's', '_', '\x7f', '\u0080']
    (∀ character, character ∈ sorted ↔ character ∈ cluttered) ∧
      (∃ misa, ofExtensions? cluttered = .ok misa ∧ ofExtensions? sorted = .ok misa ∧
        has misa 'S' = true ∧ has misa 'a' = true ∧ has misa 'U' = false ∧ has misa '_' = false) ∧
      ofExtensions? ['i', '!', 'é'] = .error .subtract ∧
      ofExtensions? ['i', 'é', '!'] = .error .shiftLeft := by
  intro cluttered sorted
  have same : ∀ character, character ∈ sorted ↔ character ∈ cluttered := by
    intro character
    simp only [sorted, cluttered, List.mem_cons, List.not_mem_nil, or_false]
    tauto
  have built : ofExtensions? cluttered = .ok 0xc000000040040001 := by decide
  obtain ⟨-, -, laws⟩ := ofExtensions?_advertises cluttered
  obtain ⟨advertised, reordered⟩ := laws _ built
  have absent (character : Char) (missing : ¬(character.isAlpha = true ∧
      (character.toUpper ∈ cluttered ∨ character.toLower ∈ cluttered))) :
      has 0xc000000040040001 character = false :=
    Bool.eq_false_iff.mpr (mt (advertised character).mp missing)
  refine ⟨same, ⟨_, built, reordered sorted same, ?_, ?_, ?_, ?_⟩, ?_, ?_⟩
  · exact (advertised 'S').mpr (by decide)
  · exact (advertised 'a').mpr (by decide)
  · exact absent 'U' (by decide)
  · exact absent '_' (by decide)
  · exact ((ofExtensions?_advertises _).2.1 _).mpr
      ⟨['i'], '!', ['é'], rfl, List.forall_mem_singleton.mpr (by decide), .inl ⟨by decide, rfl⟩⟩
  · exact ((ofExtensions?_advertises _).2.1 _).mpr
      ⟨['i'], 'é', ['!'], rfl, List.forall_mem_singleton.mpr (by decide), .inr ⟨by decide, rfl⟩⟩

end Misa

end HartBoot
