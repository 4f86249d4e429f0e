import HartBoot.Proofs.Enforcement
import Mathlib.Data.List.Forall2

/-! # Blocks that are given as ranges

An aligned block of memory can be given to a hart as a block, or as the range of its bytes. The two
are programmed in different ways: a block takes one entry, whose address ends in a run of ones, and
a range takes two entries with a bound each, so that all regions after it are moved to other
entries. As long as every region of a domain finds its entries, this makes no difference to what the
hart decides about an address.
-/

namespace HartBoot

/-- A block that starts at a multiple of its size is made up of the addresses from there up to the
next multiple. -/
theorem div_eq_div_iff_of_dvd {base byte size : Nat} (positive : 0 < size) (aligned : size ∣ base) :
    byte / size = base / size ↔ base ≤ byte ∧ byte < base + size := by
  obtain ⟨quotient, rfl⟩ := aligned
  rw [Nat.mul_div_cancel_left quotient positive, Nat.div_eq_iff positive, Nat.mul_comm quotient]
  omega

/-- A region as it is, or the range of the bytes of a block that is aligned, is not smaller than the
unit, and ends before the top of the address space. -/
inductive Region.Restates (unit : Nat) : Region → Region → Prop
  | same (region : Region) : Restates unit region region
  | range (region : Region) (order : Nat) (size : Word) (block : region.extent = .napot order)
      (coarse : unit ≤ 2 ^ order) (inside : order < 64) (aligned : 2 ^ order ∣ region.base.toNat)
      (bounded : region.base.toNat + 2 ^ order < 2 ^ 64) (sized : size.toNat = 2 ^ order) :
      Restates unit region { region with extent := .tor size }

namespace Region.Restates

variable {unit exponent : Nat} {region other : Region}

theorem flags_eq (restated : Restates unit region other) : other.flags = region.flags := by
  cases restated <;> rfl

/-- Given in another way, a region guards the same bytes. -/
theorem guards_eq (restated : Restates (2 ^ exponent) region other) (byte : Nat) :
    other.guards (2 ^ exponent) byte = region.guards (2 ^ exponent) byte := by
  cases restated with
  | same => rfl
  | range order size block coarse inside aligned bounded sized =>
    have divides : 2 ^ exponent ∣ 2 ^ order :=
      Nat.pow_dvd_pow 2 ((Nat.pow_le_pow_iff_right (by decide)).mp coarse)
    have start : region.base.toNat / 2 ^ exponent * 2 ^ exponent = region.base.toNat :=
      Nat.div_mul_cancel (divides.trans aligned)
    have past : (region.base.toNat + 2 ^ order) / 2 ^ exponent * 2 ^ exponent =
        region.base.toNat + 2 ^ order :=
      Nat.div_mul_cancel (Nat.dvd_add (divides.trans aligned) divides)
    have uncut : min (region.base.toNat + 2 ^ order) (2 ^ 64 - 1) = region.base.toNat + 2 ^ order :=
      min_eq_left (by omega)
    simp only [guards, block, sized, uncut, start, past]
    rw [Bool.eq_iff_iff, Bool.and_eq_true, decide_eq_true_eq, decide_eq_true_eq, beq_iff_eq,
      div_eq_div_iff_of_dvd (Nat.two_pow_pos order) aligned]

/-- Given in other ways, regions in order decide every byte alike. -/
theorem find?_guards {regions others : List Region}
    (restated : List.Forall₂ (Restates (2 ^ exponent)) regions others) (byte : Nat) :
    (others.find? (·.guards (2 ^ exponent) byte)).map (Protection.permissions ·.flags) =
      (regions.find? (·.guards (2 ^ exponent) byte)).map (Protection.permissions ·.flags) := by
  induction restated with
  | nil => rfl
  | cons head _ ih =>
    rw [List.find?_cons, List.find?_cons, head.guards_eq]
    split
    · rw [Option.map_some, Option.map_some, head.flags_eq]
    · exact ih

end Region.Restates

/-- On a hart that has the plan for some regions in its entries and nothing after them, a byte is
decided by the first of the regions with entries that guards it. -/
theorem Hart.lookup?_of_programmed {hart : Hart} {file : CsrFile} {record : FeatureRecord}
    {regions : List Region} (equipped : file.HasPmp Word.ones)
    (cleared : ∀ entry : Fin 64, file.value? (PmpSetting.configRegister entry) = some 0)
    (power : record.pmpGran = 0 ∨ ∃ exponent, record.pmpGran.toNat = 2 ^ exponent)
    (programmed : hart.csrs = file.programAll (plan record 0 regions)) (byte : Word) :
    hart.lookup? byte =
      ((placed record 0 regions).find? (·.guards (max 4 record.pmpGran.toNat) byte.toNat)).map
        (Protection.permissions ·.flags) := by
  have held : hart.csrs.Holds Word.ones (plan record 0 regions) :=
    programmed ▸ equipped.holds_plan record regions
  have idle (entry : Fin 64) (past : (plan record 0 regions).length ≤ entry.val) :
      MatchMode.ofOctet (hart.csrs.content entry).1 = .off := by
    have octet : (hart.csrs.content entry).1 = 0 := by
      rw [programmed, CsrFile.content_past_plan _ record regions past, CsrFile.content,
        cleared entry]
      simp [PmpSetting.octetOf]
    rw [octet]
    rfl
  rw [lookup?_eq_answer? (entries_plan record 0 regions) idle, answer?_plan power held]

namespace BootM

/-- On a hart whose protection entries are there, hold all address bits and are off, two domains can
be configured that differ in blocks given as ranges. If all regions of both are configured, every
byte is decided in the same way under both: by the first region of the domain that guards it, with
exactly the permissions of that region. -/
theorem configure_respelled (record : FeatureRecord) (domain other : Domain) (machine : Machine)
    (equipped : machine.hart.csrs.HasPmp Word.ones)
    (cleared : ∀ entry : Fin 64,
      machine.hart.csrs.value? (PmpSetting.configRegister entry) = some 0)
    (numbered : ∃ id, machine.hart.csrs.value? .mhartid = some id)
    (coarse : 4 ≤ record.pmpGran.toNat)
    (power : ∃ exponent, record.pmpGran.toNat = 2 ^ exponent)
    (restated : List.Forall₂ (Region.Restates record.pmpGran.toNat) domain.regions other.regions) :
    ∃ report after second final,
      configure record domain machine = .ok report after ∧
      configure record other machine = .ok second final ∧
      report.configured = (placed record 0 domain.regions).length ∧
      second.configured = (placed record 0 other.regions).length ∧
      (report.configured = domain.regions.length → second.configured = other.regions.length →
        ∀ byte : Word,
          after.hart.lookup? byte =
            (domain.regions.find? (·.guards record.pmpGran.toNat byte.toNat)).map
              (Protection.permissions ·.flags) ∧
          final.hart.lookup? byte = after.hart.lookup? byte) := by
  obtain ⟨id, numbered⟩ := numbered
  obtain ⟨after, ran, registers, -⟩ := gives_configure equipped numbered record domain machine rfl
  obtain ⟨final, again, others, -⟩ := gives_configure equipped numbered record other machine rfl
  refine ⟨_, after, _, final, ran, again, rfl, rfl, fun all every byte => ?_⟩
  have first := Hart.lookup?_of_programmed equipped cleared (.inr power) registers byte
  have second := Hart.lookup?_of_programmed equipped cleared (.inr power) others byte
  rw [(placed_sublist record 0 domain.regions).eq_of_length all, max_eq_right coarse] at first
  rw [(placed_sublist record 0 other.regions).eq_of_length every, max_eq_right coarse] at second
  obtain ⟨exponent, power⟩ := power
  rw [power] at restated
  rw [first, second, power]
  exact ⟨rfl, Region.Restates.find?_guards restated byte.toNat⟩

end BootM

/-- A domain with two blocks, a range between them, and all memory. -/
def Domain.blockwise : Domain where
  name := "blockwise"
  bootHart := 0
  regions := [
    { base := 0x80000000, extent := .napot 12, flags := ⟨0b1101⟩ },
    { base := 0x80000800, extent := .tor 0x1806, flags := ⟨0b0001⟩ },
    { base := 0x80004000, extent := .napot 4, flags := ⟨0b0010⟩ },
    { base := 0, extent := .napot 64, flags := ⟨0b0111⟩ }]

/-- The same domain with the two blocks given as ranges. -/
def Domain.rangewise : Domain where
  name := "rangewise"
  bootHart := 0
  regions := [
    { base := 0x80000000, extent := .tor 0x1000, flags := ⟨0b1101⟩ },
    { base := 0x80000800, extent := .tor 0x1806, flags := ⟨0b0001⟩ },
    { base := 0x80004000, extent := .tor 0x10, flags := ⟨0b0010⟩ },
    { base := 0, extent := .napot 64, flags := ⟨0b0111⟩ }]

theorem Domain.restates_rangewise (unit : Nat) (small : unit ≤ 16) :
    List.Forall₂ (Region.Restates unit) blockwise.regions rangewise.regions := by
  have order (exponent : Nat) (large : 4 ≤ exponent) : unit ≤ 2 ^ exponent := by
    have least : 2 ^ 4 ≤ 2 ^ exponent := Nat.pow_le_pow_right (by decide) large
    exact small.trans least
  refine .cons ?_ (.cons (.same _) (.cons ?_ (.cons (.same _) .nil)))
  · exact .range { base := 0x80000000, extent := .napot 12, flags := ⟨0b1101⟩ } 12 0x1000 rfl
      (order 12 (by decide)) (by decide) (by decide) (by decide) rfl
  · exact .range { base := 0x80004000, extent := .napot 4, flags := ⟨0b0010⟩ } 4 0x10 rfl
      (order 4 (by decide)) (by decide) (by decide) (by decide) rfl

/-- The ranges take two entries more, so the last region is moved to another entry. -/
theorem BootM.configure_respelled_rangewise :
    let record : FeatureRecord := { pmpCount := 8, pmpGran := 16, pmpAddrBits := 54 }
    let machine : Machine := ⟨Hart.numbered.withPmp Word.ones, .blank, {}⟩
    (machine.hart.csrs.HasPmp Word.ones ∧
      (∀ entry : Fin 64, machine.hart.csrs.value? (PmpSetting.configRegister entry) = some 0) ∧
      (∃ id, machine.hart.csrs.value? .mhartid = some id) ∧ 4 ≤ record.pmpGran.toNat ∧
      (∃ exponent, record.pmpGran.toNat = 2 ^ exponent) ∧
      List.Forall₂ (Region.Restates record.pmpGran.toNat) Domain.blockwise.regions
        Domain.rangewise.regions) ∧
    ∃ report after second final, configure record Domain.blockwise machine = .ok report after ∧
      configure record Domain.rangewise machine = .ok second final ∧
      report.configured = 4 ∧ second.configured = 4 ∧
      after.hart.lookup? 0x80004008 = some ⟨0b010⟩ ∧
      ∀ byte : Word, final.hart.lookup? byte = after.hart.lookup? byte := by
  intro record machine
  have equipped : machine.hart.csrs.HasPmp Word.ones := Hart.hasPmp_withPmp Hart.numbered Word.ones
  have cleared := Hart.value?_withPmp_config Hart.numbered Word.ones
  have numbered : ∃ id, machine.hart.csrs.value? .mhartid = some id :=
    ⟨0, Hart.value?_numbered_withPmp Word.ones⟩
  have power : ∃ exponent, record.pmpGran.toNat = 2 ^ exponent := ⟨4, rfl⟩
  have restated := Domain.restates_rangewise record.pmpGran.toNat (by decide)
  obtain ⟨report, after, second, final, ran, again, configured, others, decided⟩ :=
    configure_respelled record Domain.blockwise Domain.rangewise machine equipped cleared numbered
      (by decide) power restated
  have all : report.configured = 4 := configured.trans (by decide +kernel)
  have every : second.configured = 4 := others.trans (by decide +kernel)
  refine ⟨⟨equipped, cleared, numbered, by decide, power, restated⟩, report, after, second, final,
    ran, again, all, every, ?_, fun byte => (decided all every byte).2⟩
  rw [(decided all every 0x80004008).1]
  decide +kernel

end HartBoot
