import HartBoot.Word

/-! # Extensions of the instruction set

One register advertises the single-letter extensions of a hart, the letters from A onwards taking
one bit each from the lowest up, and its width in the two highest bits. Asking for an extension
knows letters only. Building the register takes any character and uses its distance from the
letter A, so a character below A is refused, and so is one at a distance of 64 or more.
-/

namespace HartBoot.Misa

/-- Bit of a letter's extension, either case. Other characters have none. -/
def bit? (extension : Char) : Option Nat :=
  if 'A' ≤ extension ∧ extension ≤ 'Z' then some (extension.toNat - 'A'.toNat)
  else if 'a' ≤ extension ∧ extension ≤ 'z' then some (extension.toNat - 'a'.toNat)
  else none

/-- Whether the register advertises the given extension. -/
def has (misa : Word) (extension : Char) : Bool :=
  match bit? extension with
  | some bit => misa &&& (1 <<< bit) != 0
  | none => false

/-- The register of a 64-bit hart without any extension. -/
def bare : Word := 2 <<< 62

/-- The word with the bit that a character stands for, small letters counting as capitals. -/
def mark? (extension : Char) : Except Overflow Word :=
  let code := extension.toUpper.toNat
  if code < 'A'.toNat then .error .subtract else Word.shiftLeft? 1 (code - 'A'.toNat)

/-- The register advertising every character of a list. The first character that cannot be
represented decides how the list is refused. -/
def ofExtensions? (extensions : List Char) : Except Overflow Word :=
  extensions.foldlM (fun misa extension => return misa ||| (← mark? extension)) bare

end HartBoot.Misa
