import HartBoot.Word

/-! # Privilege modes

A hart runs in one of three modes. The encoding of a mode is the one that the status register
uses; the encoding 2 is reserved and stands for no mode.
-/

namespace HartBoot

/-- The privilege modes of a hart. -/
inductive PrivilegeMode where
  | user
  | supervisor
  | machine
deriving DecidableEq, Repr

namespace PrivilegeMode

/-- Encoding of a mode in the status register. -/
def bits : PrivilegeMode → Word
  | .user => 0
  | .supervisor => 1
  | .machine => 3

/-- The mode with the given encoding. -/
def ofBits? (encoding : Word) : Option PrivilegeMode :=
  if encoding = 0 then some .user
  else if encoding = 1 then some .supervisor
  else if encoding = 3 then some .machine
  else none

/-- How diagnostics name a mode. -/
def text : PrivilegeMode → String
  | .user => "U-mode"
  | .supervisor => "S-mode"
  | .machine => "M-mode"

/-- A word encodes a mode exactly when it is the encoding of that mode. -/
theorem ofBits?_eq_some_iff (encoding : Word) (mode : PrivilegeMode) :
    ofBits? encoding = some mode ↔ encoding = mode.bits := by
  unfold ofBits?
  cases mode <;> simp only [bits] <;> (repeat' split) <;> simp_all

end PrivilegeMode

end HartBoot
