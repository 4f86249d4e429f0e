import HartBoot.Flags

/-! # Configuration of a protection entry

Each protection entry is configured by an octet: three permissions, a two-bit field that selects
how addresses are matched, and a lock. The matching modes are named as flags too, the field being
all set for blocks of more than one word.
-/

namespace HartBoot

namespace PmpFlags

/-- Bits of a configuration octet. -/
def family : FlagFamily 8 :=
  [("R", 1 <<< 0), ("W", 1 <<< 1), ("X", 1 <<< 2), ("A_TOR", 1 <<< 3), ("A_NA4", 2 <<< 3),
    ("A_NAPOT", 3 <<< 3), ("L", 1 <<< 7)]

end PmpFlags

/-- The flags of a configuration octet. -/
abbrev PmpFlags := FlagSet PmpFlags.family

namespace PmpFlags

/-- Read access. -/
def read : PmpFlags := ⟨1 <<< 0⟩
/-- Write access. -/
def write : PmpFlags := ⟨1 <<< 1⟩
/-- Execute access. -/
def execute : PmpFlags := ⟨1 <<< 2⟩
/-- Matching from the previous address up to this one. -/
def tor : PmpFlags := ⟨1 <<< 3⟩
/-- Matching one naturally aligned word of four bytes. -/
def na4 : PmpFlags := ⟨2 <<< 3⟩
/-- Matching a naturally aligned block of eight bytes or more. -/
def napot : PmpFlags := ⟨3 <<< 3⟩
/-- The entry is locked and also binds machine mode. -/
def lock : PmpFlags := ⟨1 <<< 7⟩

/-- The whole matching field. -/
def matching : PmpFlags := napot

/-- The flags with the matching field cleared. -/
def withoutMatching (flags : PmpFlags) : PmpFlags := flags \ matching

end PmpFlags

end HartBoot
