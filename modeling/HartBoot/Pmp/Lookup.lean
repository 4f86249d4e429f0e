import HartBoot.Hart
import HartBoot.Pmp.Setting

/-! # How protection entries match addresses

A hart checks an access against its protection entries from the lowest one up, and the first that
matches decides. An entry that is off matches nothing. One that holds the top of a range matches
from the address of the previous entry, or from zero for the first one, up to its own. One that
holds a word matches that word, and one that holds a block matches the block whose size is given
by the run of ones at the bottom of its address, an address of only ones standing for all memory.
-/

namespace HartBoot

/-- The matching modes of a protection entry. -/
inductive MatchMode where
  | off
  | tor
  | na4
  | napot
deriving DecidableEq, Repr

namespace MatchMode

/-- The matching mode that a configuration octet selects. -/
def ofOctet (octet : Byte) : MatchMode :=
  match (octet >>> 3) &&& 0b11 with
  | 0 => .off
  | 1 => .tor
  | 2 => .na4
  | _ => .napot

end MatchMode

/-- A protection entry as the hart reads it back. -/
structure PmpReading where
  octet : Byte
  address : Word
  /-- Address of the previous entry, or zero for the first one. -/
  previous : Word
deriving DecidableEq, Repr

namespace PmpReading

/-- Number of ones at the bottom of an entry's address. -/
def trailingOnes (address : Word) : Nat := Word.trailingZeros (~~~address)

/-- Whether an entry matches the byte at an address. -/
def covers (reading : PmpReading) (byte : Word) : Bool :=
  let word := byte >>> 2
  match MatchMode.ofOctet reading.octet with
  | .off => false
  | .tor => reading.previous ≤ word && word < reading.address
  | .na4 => word == reading.address
  | .napot =>
    let size := trailingOnes reading.address + 1
    word >>> size == reading.address >>> size

/-- The permissions and the lock of an entry. -/
def grants (reading : PmpReading) : PmpFlags :=
  PmpFlags.withoutMatching (FlagSet.truncate reading.octet)

end PmpReading

namespace Hart

/-- The octet that configures an entry, if its register is implemented. -/
def octet? (hart : Hart) (entry : Fin 64) : Option Byte :=
  (hart.value? (PmpSetting.configRegister entry)).map fun register : Word =>
    (register >>> PmpSetting.octetShift entry).setWidth 8

/-- A protection entry as the hart holds it. Absent registers read as zero. -/
def reading (hart : Hart) (entry : Fin 64) : PmpReading where
  octet := (hart.octet? entry).getD 0
  address := (hart.value? (Csr.pmpaddr entry)).getD 0
  previous :=
    if entry.val = 0 then 0 else (hart.value? (Csr.pmpaddr (entry - 1))).getD 0

/-- The lowest entry that matches a byte. -/
def firstMatch? (hart : Hart) (byte : Word) : Option (Fin 64) :=
  (List.finRange 64).find? fun entry => (hart.reading entry).covers byte

/-- The permissions that decide an access to a byte, if any entry matches it. -/
def lookup? (hart : Hart) (byte : Word) : Option PmpFlags :=
  (hart.firstMatch? byte).map fun entry => (hart.reading entry).grants

end Hart

end HartBoot
