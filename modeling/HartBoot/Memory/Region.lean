import HartBoot.Flags

/-! # Memory regions and domains

A domain confines a hart to a list of memory regions, the earlier ones taking precedence. A region
is either a block whose size is a power of two, or a range of any size. Ranges that would run past
the top of the address space end there.
-/

namespace HartBoot

namespace RegionFlags

/-- Bits of the permissions of a region. -/
def family : FlagFamily 64 :=
  [("READABLE", 1 <<< 0), ("WRITEABLE", 1 <<< 1), ("EXECUTABLE", 1 <<< 2), ("MMODE", 1 <<< 3)]

end RegionFlags

/-- Permissions of a region. -/
abbrev RegionFlags := FlagSet RegionFlags.family

namespace RegionFlags

/-- Lower modes may read. -/
def readable : RegionFlags := ⟨1 <<< 0⟩
/-- Lower modes may write. -/
def writeable : RegionFlags := ⟨1 <<< 1⟩
/-- Lower modes may execute. -/
def executable : RegionFlags := ⟨1 <<< 2⟩
/-- The permissions also bind machine mode. -/
def machineMode : RegionFlags := ⟨1 <<< 3⟩

end RegionFlags

/-- How the size of a region is given. -/
inductive Extent where
  /-- A block of a power of two bytes, given by its base-two logarithm. -/
  | napot (order : Nat)
  /-- A range of the given number of bytes. -/
  | tor (size : Word)
deriving DecidableEq, Repr

/-- A region of physical memory. -/
structure Region where
  base : Word
  extent : Extent
  flags : RegionFlags
deriving DecidableEq, Repr

namespace Region

/-- First address past a region, or the largest address if the region reaches the top. -/
def limit (region : Region) : Word :=
  match region.extent with
  | .napot order =>
    if Word.width ≤ order then Word.ones else Word.saturatingAdd region.base (1 <<< order)
  | .tor size => Word.saturatingAdd region.base size

/-- The logarithm that diagnostics show for the size of a region, rounded up for a range. -/
def order (region : Region) : Nat :=
  match region.extent with
  | .napot order => order
  | .tor size => Word.bitLength size

end Region

/-- The regions that harts are confined to, and the hart that reports on them. -/
structure Domain where
  name : String
  bootHart : Word
  /-- Regions in order of precedence. -/
  regions : List Region
deriving DecidableEq, Repr

end HartBoot
