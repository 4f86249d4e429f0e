/-! # Hexadecimal text

Words and register numbers are written in lower-case hexadecimal, with the usual marker in
front. A minimum number of digits is reached by zeros between the marker and the digits.
-/

namespace HartBoot

/-- Lower-case digits, most significant first, with at least `least` of them. -/
def hexDigits (least number : Nat) : List Char :=
  let digits := Nat.toDigits 16 number
  List.replicate (least - digits.length) '0' ++ digits

/-- Marked hexadecimal text with at least `least` digits. -/
def hexPadded (least number : Nat) : String :=
  "0x" ++ String.ofList (hexDigits least number)

/-- Marked hexadecimal text without leading zeros; zero itself has one digit. -/
def hex (number : Nat) : String := hexPadded 1 number

/-- Value of a hexadecimal digit, either case. -/
def hexDigit? (digit : Char) : Option Nat :=
  if '0' ≤ digit ∧ digit ≤ '9' then some (digit.toNat - '0'.toNat)
  else if 'a' ≤ digit ∧ digit ≤ 'f' then some (digit.toNat - 'a'.toNat + 10)
  else if 'A' ≤ digit ∧ digit ≤ 'F' then some (digit.toNat - 'A'.toNat + 10)
  else none

/-- The number written in marked hexadecimal text. -/
def ofHex? (text : String) : Option Nat :=
  match text.toList with
  | '0' :: 'x' :: first :: rest =>
    (first :: rest).foldlM (fun number digit => return 16 * number + (← hexDigit? digit)) 0
  | _ => none

end HartBoot
