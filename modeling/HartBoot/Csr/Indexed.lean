import HartBoot.Csr

/-! # Numbered register families

Memory protection and performance counting use families of registers with consecutive numbers.
A register of a family is reached from the first one by an index that is in range by its type.
Indices that arrive as plain numbers are checked first, and each family refuses the others with a
fault of its own.
-/

namespace HartBoot.Csr

/-- Number of entries of physical memory protection. -/
def pmpEntries : Nat := 64

/-- Index of the first programmable performance counter. -/
def firstCounter : Nat := 3

/-- Index of the last programmable performance counter. -/
def lastCounter : Nat := 31

/-- The ways in which a number fails to name a register. -/
inductive IndexFault where
  /-- More than 12 bits were given for a register number. -/
  | number
  | pmpEntry
  | pmpConfig
  | counter
  | counterHigh
deriving DecidableEq, Repr

/-- The sentence reporting an index that is out of range. -/
def IndexFault.message : IndexFault → String
  | .number => "CSR numbers are 12 bits wide"
  | .pmpEntry => "invalid PMP entry"
  | .pmpConfig => "invalid pmpcfg index"
  | .counter => "invalid mhpmcounter"
  | .counterHigh => "invalid mhpmcounterh"

/-- There are protection entries, so that they have numerals. -/
instance (priority := 2000) neZero_entries : @NeZero Nat Zero.ofOfNat0 64 := ⟨by decide⟩

/-- The register at an index of the family that begins with the given register. -/
def following (first : Csr) (index : Nat) : Csr := ⟨first.number + BitVec.ofNat 12 index⟩

/-- The address register of a protection entry. -/
def pmpaddr (entry : Fin 64) : Csr := pmpaddr0.following entry

/-- A configuration register of memory protection. On a 64-bit hart each one of even index
configures eight entries, and those of odd index do not exist. -/
def pmpcfg (index : Fin 16) : Csr := pmpcfg0.following index

/-- A machine-mode counter. Those from index 3 onwards are programmable. -/
def machineCounter (index : Fin 32) : Csr := mcycle.following index

/-- The upper half of a programmable counter on a 32-bit hart. -/
def machineCounterHigh (index : Fin 32) : Csr := mhpmcounter3h.following (index - firstCounter)

/-- The register with the given number. -/
def ofNumber? (number : Nat) : Except IndexFault Csr :=
  if number < 0x1000 then .ok ⟨BitVec.ofNat 12 number⟩ else .error .number

/-- The address register of the protection entry with the given number. -/
def pmpaddr? (entry : Nat) : Except IndexFault Csr :=
  if inRange : entry < pmpEntries then .ok (pmpaddr ⟨entry, inRange⟩) else .error .pmpEntry

/-- The configuration register with the given index. -/
def pmpcfg? (index : Nat) : Except IndexFault Csr :=
  if inRange : index < 16 then .ok (pmpcfg ⟨index, inRange⟩) else .error .pmpConfig

/-- The programmable counter with the given index. -/
def counter? (index : Nat) : Except IndexFault Csr :=
  if inRange : firstCounter ≤ index ∧ index ≤ lastCounter then
    .ok (machineCounter ⟨index, Nat.lt_succ_of_le inRange.2⟩)
  else .error .counter

/-- The upper half of the programmable counter with the given index. -/
def counterHigh? (index : Nat) : Except IndexFault Csr :=
  if inRange : firstCounter ≤ index ∧ index ≤ lastCounter then
    .ok (machineCounterHigh ⟨index, Nat.lt_succ_of_le inRange.2⟩)
  else .error .counterHigh

section family

variable {first : Csr} {size : Nat}

/-- The registers of a family are numbered without a gap, as far as there are numbers. -/
theorem number_following (fits : first.number.toNat + size ≤ 0x1000) (index : Fin size) :
    (first.following index).number.toNat = first.number.toNat + index := by
  have inside := index.isLt
  rw [following, BitVec.toNat_add, BitVec.toNat_ofNat, Nat.add_mod_mod]
  apply Nat.mod_eq_of_lt
  omega

/-- Distinct indices have distinct registers. -/
theorem following_inj (fits : first.number.toNat + size ≤ 0x1000) {left right : Fin size} :
    first.following left = first.following right ↔ left = right := by
  constructor
  · intro same
    have numbers := congrArg (fun csr => csr.number.toNat) same
    simp only [number_following fits] at numbers
    omega
  · rintro rfl
    rfl

/-- Software may write to a family that ends below the read-only registers. -/
theorem isReadOnly_following (low : first.number.toNat + size ≤ 0xc00) (index : Fin size) :
    (first.following index).isReadOnly = false := by
  have inside := index.isLt
  have number := number_following (Nat.le_trans low (by decide)) index
  rw [isReadOnly, beq_eq_false_iff_ne]
  intro topBits
  have quotient : (first.following index).number.toNat >>> 10 = 3 := congrArg BitVec.toNat topBits
  rw [number, Nat.shiftRight_eq_div_pow] at quotient
  omega

end family

theorem pmpaddr_zero : pmpaddr 0 = pmpaddr0 := rfl

theorem machineCounter_three : machineCounter 3 = mhpmcounter3 := rfl

theorem number_pmpaddr (entry : Fin 64) : (pmpaddr entry).number.toNat = 0x3b0 + entry :=
  number_following (by decide) entry

theorem number_pmpcfg (index : Fin 16) : (pmpcfg index).number.toNat = 0x3a0 + index :=
  number_following (by decide) index

/-- Distinct protection entries have distinct address registers. -/
theorem pmpaddr_inj {left right : Fin 64} : pmpaddr left = pmpaddr right ↔ left = right :=
  following_inj (by decide)

/-- Distinct indices have distinct configuration registers. -/
theorem pmpcfg_inj {left right : Fin 16} : pmpcfg left = pmpcfg right ↔ left = right :=
  following_inj (by decide)

/-- No register is both an address and a configuration register. -/
theorem pmpaddr_ne_pmpcfg (entry : Fin 64) (index : Fin 16) : pmpaddr entry ≠ pmpcfg index := by
  intro same
  have numbers := congrArg (fun csr => csr.number.toNat) same
  simp only [number_pmpaddr, number_pmpcfg] at numbers
  omega

/-- Address registers of memory protection are numbered among the writable ones. -/
theorem isReadOnly_pmpaddr (entry : Fin 64) : (pmpaddr entry).isReadOnly = false :=
  isReadOnly_following (by decide) entry

/-- Machine-mode counters are numbered among the writable ones. -/
theorem isReadOnly_machineCounter (index : Fin 32) : (machineCounter index).isReadOnly = false :=
  isReadOnly_following (by decide) index

end HartBoot.Csr
