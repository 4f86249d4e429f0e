import HartBoot.Byte
import HartBoot.Hart
import HartBoot.Pmp.Protection

/-! # Settings of protection entries

An entry is set by its address register and by one octet of a configuration register that it
shares with seven others. A protection is encoded as settings of the entries from a given place
onwards: a block puts its size into the lowest address bits, as a run of ones below a zero, and a
range sets an entry to each of its bounds, the first of which matches nothing by itself.
-/

namespace HartBoot

/-- The content of one protection entry. -/
structure PmpSetting where
  entry : Fin 64
  config : PmpFlags
  address : Word
deriving DecidableEq, Repr

namespace PmpSetting

/-- The configuration register holding an entry's octet. -/
def configRegister (entry : Fin 64) : Csr := Csr.pmpcfg ⟨entry / 8 * 2, by omega⟩

/-- Lowest bit of an entry's octet. -/
def octetShift (entry : Fin 64) : Nat := entry % 8 * 8

/-- Replace one octet of a configuration register. -/
def replaceOctet (register : Word) (shift : Nat) (octet : Byte) : Word :=
  (register &&& ~~~((0xff : Word) <<< shift)) ||| (octet.setWidth 64 <<< shift)

/-- Program an entry: its address first, then its octet. -/
def apply (setting : PmpSetting) : HartM Unit := do
  let register := configRegister setting.entry
  let config := replaceOctet (← HartM.read register) (octetShift setting.entry) setting.config.bits
  HartM.write (Csr.pmpaddr setting.entry) setting.address
  HartM.write register config

end PmpSetting

namespace Protection

/-- Logarithm of the smallest block, a word of four bytes. -/
def minOrder : Nat := 2

/-- Logarithm of the largest block, the whole address space. -/
def maxOrder : Nat := 64

/-- The matching mode and the address of an entry for a block. -/
def blockAddress (base : Word) (order : Nat) : PmpFlags × Word :=
  if order = minOrder then (PmpFlags.na4, base >>> addressShift)
  else if order = maxOrder then (PmpFlags.napot, Word.ones)
  else
    let mask : Word := (1 <<< (order - addressShift)) - 1
    (PmpFlags.napot, ((base >>> addressShift) &&& ~~~mask) ||| (mask >>> 1))

/-- The setting of an entry that protects a block. -/
def encodeBlock? (entry : Nat) (flags : PmpFlags) (base : Word) (order : Nat) :
    Except PmpError (List PmpSetting) :=
  if inRange : entry < 64 then
    if minOrder ≤ order ∧ order ≤ maxOrder then
      let (mode, address) := blockAddress base order
      .ok [{ entry := ⟨entry, inRange⟩, config := flags.withoutMatching ∪ mode, address }]
    else .error (.invalidOrder order)
  else .error (.invalidEntry entry)

/-- The settings of an entry and the next one that protect a range. -/
def encodeRange? (entry : Nat) (flags : PmpFlags) (start limit : Word) :
    Except PmpError (List PmpSetting) :=
  if inRange : entry + 1 < 64 then
    .ok [
      { entry := ⟨entry, by omega⟩
        config := flags.withoutMatching
        address := start >>> addressShift },
      { entry := ⟨entry + 1, inRange⟩
        config := flags.withoutMatching ∪ PmpFlags.tor
        address := limit >>> addressShift }]
  else .error (.invalidEntry (entry + 1))

/-- The settings of a protection that starts at the given entry. -/
def encode? (protection : Protection) (entry : Nat) : Except PmpError (List PmpSetting) :=
  match protection with
  | .napot base order flags => encodeBlock? entry flags base order
  | .tor start limit flags => encodeRange? entry flags start limit

/-- A protection is set by as many entries as it takes. -/
theorem length_of_encode? {protection : Protection} {entry : Nat} {settings : List PmpSetting}
    (encoded : protection.encode? entry = .ok settings) : settings.length = protection.slots := by
  cases protection with
  | napot base order flags =>
    simp only [encode?, encodeBlock?] at encoded
    split at encoded
    · split at encoded
      · simp only [Except.ok.injEq] at encoded
        simp [← encoded, slots]
      · simp at encoded
    · simp at encoded
  | tor start limit flags =>
    simp only [encode?, encodeRange?] at encoded
    split at encoded
    · simp only [Except.ok.injEq] at encoded
      simp [← encoded, slots]
    · simp at encoded

end Protection

namespace HartM

/-- Program the given settings, unless there are none to program. -/
def applySettings (settings : Except PmpError (List PmpSetting)) :
    HartM (Except PmpError Unit) := do
  match settings with
  | .ok settings =>
    settings.forM PmpSetting.apply
    return .ok ()
  | .error error => return .error error

/-- Protect a block with the given entry. -/
def setBlock (entry : Nat) (flags : PmpFlags) (base : Word) (order : Nat) :
    HartM (Except PmpError Unit) :=
  applySettings (Protection.encodeBlock? entry flags base order)

/-- Protect a range with the given entry and the next one. Entries are numbered by machine words,
so the largest number has no next one. -/
def setRange (entry : Nat) (flags : PmpFlags) (start limit : Word) :
    HartM (Except PmpError Unit) := do
  let _ ← checked (Word.addCounts? entry 1)
  applySettings (Protection.encodeRange? entry flags start limit)

/-- Program a protection from the given entry onwards. -/
def protect (protection : Protection) (entry : Nat) : HartM (Except PmpError Unit) :=
  match protection with
  | .napot base order flags => setBlock entry flags base order
  | .tor start limit flags => setRange entry flags start limit

end HartM

end HartBoot
