import HartBoot.Features
import HartBoot.Hex
import HartBoot.Memory.Region
import HartBoot.Pmp.Flags

/-! # Protecting regions

A hart protects memory by entries with a place each. A block of memory needs one entry, a range
needs two: one for each of its bounds. A block is refused when it is smaller than the hart can
protect, or when it starts beyond the addresses that the hart can hold. Both bounds of a range are
rounded down to the granularity.
-/

namespace HartBoot

/-- The reasons for which memory is not protected. -/
inductive PmpError where
  | invalidEntry (entry : Nat)
  | invalidOrder (order : Nat)
  | belowGranularity (order : Nat)
  | addressOutOfRange (address : Word)
deriving DecidableEq, Repr

/-- The sentence reporting why memory is not protected. -/
def PmpError.message : PmpError → String
  | .invalidEntry entry => s!"invalid PMP entry {entry}"
  | .invalidOrder order => s!"invalid region order {order}"
  | .belowGranularity order => s!"region order {order} below PMP granularity"
  | .addressOutOfRange address =>
    "address " ++ hex address.toNat ++ " beyond PMP address bits"

/-- The protection of a piece of memory, before it is given its place. -/
inductive Protection where
  /-- A naturally aligned block, given by its logarithm. -/
  | napot (base : Word) (order : Nat) (flags : PmpFlags)
  /-- The addresses from a first one up to a limit that is not included. -/
  | tor (start limit : Word) (flags : PmpFlags)
deriving DecidableEq, Repr

namespace Protection

/-- Entries hold addresses without their two lowest bits. -/
def addressShift : Nat := 2

/-- Largest address of an entry with the given number of bits. -/
def addressMax (bits : Nat) : Word := Word.ones >>> (Word.width - bits)

/-- The permissions of an entry that a region's permissions ask for. -/
def permissions (flags : RegionFlags) : PmpFlags :=
  let grant := fun (wanted : RegionFlags) (granted : PmpFlags) =>
    if flags.contains wanted then granted else .empty
  grant RegionFlags.readable PmpFlags.read ∪ grant RegionFlags.writeable PmpFlags.write
    ∪ grant RegionFlags.executable PmpFlags.execute ∪ grant RegionFlags.machineMode PmpFlags.lock

/-- Size of the smallest block that a hart can protect: its granularity, and at least a word of
four bytes. -/
def granule (record : FeatureRecord) : Word := if record.pmpGran < 4 then 4 else record.pmpGran

/-- An address rounded down to a multiple of a power of two. -/
def alignDown (address unit : Word) : Word := address &&& ~~~(unit - 1)

/-- The protection of a region on a hart with the given features. -/
def ofRegion (region : Region) (record : FeatureRecord) : Except PmpError Protection :=
  let flags := permissions region.flags
  let unit := granule record
  match region.extent with
  | .napot order =>
    if order < Word.trailingZeros unit then .error (.belowGranularity order)
    else if addressMax record.pmpAddrBits.toNat ≤ region.base >>> addressShift then
      .error (.addressOutOfRange region.base)
    else .ok (.napot region.base order flags)
  | .tor _ => .ok (.tor (alignDown region.base unit) (alignDown region.limit unit) flags)

/-- Number of entries that a protection takes. -/
def slots : Protection → Nat
  | .napot .. => 1
  | .tor .. => 2

theorem slots_pos (protection : Protection) : 0 < protection.slots := by
  cases protection <;> simp [slots]

/-- A range is never refused. -/
theorem ofRegion_of_tor {region : Region} {size : Word} (range : region.extent = .tor size)
    (record : FeatureRecord) :
    ofRegion region record = .ok (.tor (alignDown region.base (granule record))
      (alignDown region.limit (granule record)) (permissions region.flags)) := by
  simp [ofRegion, range]

end Protection

end HartBoot
