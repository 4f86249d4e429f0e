import HartBoot.Proofs.Booting
import HartBoot.Proofs.Encoding
import Mathlib.Data.List.Nodup

/-! # Configured regions are enforced in order

After configuration the entries of the plan come first and all later ones are off, so an address is
decided by the settings of the plan alone. Those of one region decide exactly the bytes that the
region guards, with the permissions that it asks for, and the plan lists them in the order of the
regions. The first region that guards a byte therefore decides it, whatever regions were passed
over and wherever the entries of a range fall.
-/

namespace HartBoot

/-- The settings are in place, with the bits that address registers hold. -/
def CsrFile.Holds (bits : Word) (file : CsrFile) (settings : List PmpSetting) : Prop :=
  ∀ setting ∈ settings,
    file.content setting.entry = (setting.config.bits, setting.address &&& bits)

/-- What the entries of the given settings decide about a byte. -/
def Hart.answer? (hart : Hart) (settings : List PmpSetting) (byte : Word) : Option PmpFlags :=
  (settings.find? fun setting => (hart.reading setting.entry).covers byte).map fun setting =>
    (hart.reading setting.entry).grants

namespace Hart

variable {hart : Hart} {bits : Word} {record : FeatureRecord} {region : Region}

@[simp] theorem answer?_nil (hart : Hart) (byte : Word) : hart.answer? [] byte = none := rfl

theorem answer?_cons (hart : Hart) (setting : PmpSetting) (rest : List PmpSetting) (byte : Word) :
    hart.answer? (setting :: rest) byte =
      if (hart.reading setting.entry).covers byte = true then
        some (hart.reading setting.entry).grants
      else hart.answer? rest byte := by
  rw [answer?, List.find?_cons]
  cases (hart.reading setting.entry).covers byte <;> rfl

theorem answer?_append (hart : Hart) (first second : List PmpSetting) (byte : Word) :
    hart.answer? (first ++ second) byte = (hart.answer? first byte).or (hart.answer? second byte) := by
  rw [answer?, answer?, answer?, List.find?_append]
  cases first.find? fun setting => (hart.reading setting.entry).covers byte <;> rfl

/-- An access is decided by the settings in the first entries when all later ones are off. -/
theorem lookup?_eq_answer? {settings : List PmpSetting}
    (entries : settings.map (·.entry.val) = List.range' 0 settings.length)
    (idle : ∀ entry : Fin 64, settings.length ≤ entry.val →
      MatchMode.ofOctet (hart.csrs.content entry).1 = .off) (byte : Word) :
    hart.lookup? byte = hart.answer? settings byte := by
  have start : (List.finRange 64).take settings.length = settings.map PmpSetting.entry := by
    apply List.map_injective_iff.mpr fun _ _ => Fin.ext
    rw [List.map_take, List.map_map, List.map_coe_finRange_eq_range]
    refine Eq.trans ?_ entries.symm
    rw [List.take_range, List.range_eq_range']
    congr 1
    apply min_eq_left
    by_contra longer
    have last : 64 ∈ settings.map (·.entry.val) := by
      rw [entries, List.mem_range'_1]
      omega
    obtain ⟨setting, -, same⟩ := List.mem_map.mp last
    omega
  have after : ((List.finRange 64).drop settings.length).find?
      (fun entry => (hart.reading entry).covers byte) = none := by
    rw [List.find?_eq_none]
    intro entry member
    obtain ⟨index, inside, rfl⟩ := List.mem_iff_getElem.mp member
    have off := idle _ (show settings.length ≤ (((List.finRange 64).drop settings.length)[index]).val by
      simp)
    rw [PmpReading.covers_of_off]
    · exact Bool.false_ne_true
    · rw [reading_eq]
      exact off
  rw [lookup?, firstMatch?, ← List.take_append_drop settings.length (List.finRange 64),
    List.find?_append, after, start, List.find?_map, Option.or_none, Option.map_map]
  rfl

/-- The entry of a block decides the bytes that it matches. -/
theorem answer?_block {order : Nat} {entry : Fin 64}
    (held : hart.csrs.Holds bits [blockSetting region order entry]) (byte : Word) {covered : Prop}
    [Decidable covered]
    (matched : ∀ reading : PmpReading,
      reading.octet = (blockSetting region order entry).config.bits →
      reading.address = (Protection.blockAddress region.base order).2 &&& bits →
      (reading.covers byte = true ↔ covered)) :
    hart.answer? [blockSetting region order entry] byte =
      if covered then some (Protection.permissions region.flags) else none := by
  have content := held _ (List.mem_singleton_self _)
  have octet : (hart.reading entry).octet = (blockSetting region order entry).config.bits := by
    rw [reading_eq]
    exact congrArg Prod.fst content
  have address : (hart.reading entry).address =
      (Protection.blockAddress region.base order).2 &&& bits := by
    rw [reading_eq]
    exact congrArg Prod.snd content
  have granted : (hart.reading entry).grants = Protection.permissions region.flags := by
    refine Protection.grants_permissions octet ?_
    rw [Protection.blockAddress]
    split
    · simp
    · split <;> simp
  have decided := matched _ octet address
  have placed : (blockSetting region order entry).entry = entry := rfl
  simp only [answer?_cons, answer?_nil, placed, granted, decided]

/-- The entries of a range decide the bytes whose words lie between the bounds that they hold. -/
theorem answer?_range {taken : Nat} {inRange : taken + 1 < 64}
    (held : hart.csrs.Holds bits [startSetting record region ⟨taken, entry_lt_of_next inRange⟩,
      limitSetting record region ⟨taken + 1, inRange⟩]) (byte : Word) :
    hart.answer? [startSetting record region ⟨taken, entry_lt_of_next inRange⟩,
        limitSetting record region ⟨taken + 1, inRange⟩] byte =
      if ((startSetting record region ⟨taken, entry_lt_of_next inRange⟩).address &&& bits).toNat ≤
            byte.toNat / 4 ∧
          byte.toNat / 4 < ((limitSetting record region ⟨taken + 1, inRange⟩).address &&& bits).toNat
        then some (Protection.permissions region.flags) else none := by
  set first := startSetting record region ⟨taken, entry_lt_of_next inRange⟩ with first_eq
  set second := limitSetting record region ⟨taken + 1, inRange⟩ with second_eq
  have lower := held first (List.mem_cons_self ..)
  have upper := held second (by simp)
  have before : second.entry - 1 = first.entry := by
    apply Fin.ext
    rw [first_eq, second_eq, startSetting, limitSetting, Fin.sub_def]
    simp
    omega
  have passed : (hart.reading first.entry).covers byte = false := by
    apply Protection.covers_start
    rw [reading_eq]
    exact congrArg Prod.fst lower
  have octet : (hart.reading second.entry).octet = second.config.bits := by
    rw [reading_eq]
    exact congrArg Prod.fst upper
  have address : (hart.reading second.entry).address = second.address &&& bits := by
    rw [reading_eq]
    exact congrArg Prod.snd upper
  have previous : (hart.reading second.entry).previous = first.address &&& bits := by
    have later : second.entry.val ≠ 0 := Nat.succ_ne_zero taken
    rw [reading_eq, if_neg later, before]
    exact congrArg Prod.snd lower
  have granted : (hart.reading second.entry).grants = Protection.permissions region.flags :=
    Protection.grants_permissions octet (List.mem_cons_self ..)
  have decided : (hart.reading second.entry).covers byte = true ↔ _ :=
    Protection.covers_range octet
  rw [previous, address] at decided
  simp only [answer?_cons, answer?_nil, passed, granted, decided, Bool.false_eq_true, if_false]

/-- The entries of a region decide the bytes that the region guards. -/
theorem answer?_placement {taken : Nat} {settings : List PmpSetting}
    (placement : Placement record taken region settings)
    (power : record.pmpGran = 0 ∨ ∃ exponent, record.pmpGran.toNat = 2 ^ exponent)
    (held : hart.csrs.Holds Word.ones settings) (byte : Word) :
    hart.answer? settings byte =
      if region.guards (max 4 record.pmpGran.toNat) byte.toNat = true then
        some (Protection.permissions region.flags)
      else none := by
  have full (address : Word) : address &&& Word.ones = address := BitVec.and_allOnes
  rcases placement.kinds with
    ⟨order, inRange, extent, low, high, -, -, rfl⟩ | ⟨size, inRange, extent, rfl⟩
  · have decided := answer?_block held byte fun reading octet address =>
      Protection.covers_block low high octet (address.trans (full _))
    simp only [decided, Region.guards, extent, beq_iff_eq]
  · have lower := Protection.toNat_alignedWord power region.base
    have upper := Protection.toNat_alignedWord power region.limit
    rw [Protection.toNat_limit extent] at upper
    rw [answer?_range held byte, full, full, startSetting, limitSetting]
    simp only [Region.guards, extent, Bool.and_eq_true, decide_eq_true_eq, ← lower, ← upper]
    congr 1
    rw [eq_iff_iff]
    omega

/-- The plan decides a byte as the first region does that guards it. -/
theorem answer?_plan {taken : Nat} {regions : List Region}
    (power : record.pmpGran = 0 ∨ ∃ exponent, record.pmpGran.toNat = 2 ^ exponent)
    (held : hart.csrs.Holds Word.ones (plan record taken regions)) (byte : Word) :
    hart.answer? (plan record taken regions) byte =
      ((placed record taken regions).find?
        (·.guards (max 4 record.pmpGran.toNat) byte.toNat)).map
        (Protection.permissions ·.flags) := by
  induction regions generalizing taken with
  | nil => rfl
  | cons region rest ih =>
    rcases plan_cons record taken region rest with
      ⟨nothing, none⟩ | ⟨same, others⟩ | ⟨settings, placement, more, others⟩
    · rw [nothing, none]
      rfl
    · rw [same] at held
      rw [same, others, ih held]
    · rw [more] at held
      have first := answer?_placement placement power
        (fun setting member => held setting (List.mem_append_left _ member)) byte
      have later := ih fun setting member => held setting (List.mem_append_right settings member)
      rw [more, others, answer?_append, first, later, List.find?_cons]
      cases region.guards (max 4 record.pmpGran.toNat) byte.toNat <;> rfl

end Hart

/-- The settings of a plan have entries of their own. -/
theorem nodup_entries_plan (record : FeatureRecord) (taken : Nat) (regions : List Region) :
    ((plan record taken regions).map PmpSetting.entry).Nodup := by
  have numbers : (((plan record taken regions).map PmpSetting.entry).map Fin.val).Nodup := by
    rw [List.map_map]
    exact (entries_plan record taken regions).symm ▸ List.nodup_range'
  exact List.Nodup.of_map Fin.val numbers

/-- Programming a plan puts its settings in place. -/
theorem CsrFile.HasPmp.holds_plan {bits : Word} {file : CsrFile} (equipped : file.HasPmp bits)
    (record : FeatureRecord) (regions : List Region) :
    (file.programAll (plan record 0 regions)).Holds bits (plan record 0 regions) :=
  fun _ member => content_programAll_of_mem equipped (nodup_entries_plan record 0 regions) member

/-- A plan has a setting for an entry exactly if the entry comes before its end. -/
theorem exists_setting_iff (record : FeatureRecord) (regions : List Region) (entry : Fin 64) :
    (∃ setting ∈ plan record 0 regions, setting.entry = entry) ↔
      entry.val < (plan record 0 regions).length := by
  have listed : entry.val ∈ (plan record 0 regions).map (·.entry.val) ↔
      entry.val < (plan record 0 regions).length := by
    rw [entries_plan, List.mem_range'_1]
    omega
  rw [← listed, List.mem_map]
  constructor
  · rintro ⟨setting, member, rfl⟩
    exact ⟨setting, member, rfl⟩
  · rintro ⟨setting, member, same⟩
    exact ⟨setting, member, Fin.ext same⟩

theorem find?_plan_of_past {record : FeatureRecord} {regions : List Region} {entry : Fin 64}
    (past : (plan record 0 regions).length ≤ entry.val) :
    (plan record 0 regions).find? (·.entry == entry) = none := by
  rw [List.find?_eq_none]
  intro setting member same
  have before := (exists_setting_iff record regions entry).mp ⟨setting, member, beq_iff_eq.mp same⟩
  omega

/-- Entries past the end of a plan stay as they were. -/
theorem CsrFile.content_past_plan (file : CsrFile) (record : FeatureRecord)
    (regions : List Region) {entry : Fin 64} (past : (plan record 0 regions).length ≤ entry.val) :
    (file.programAll (plan record 0 regions)).content entry = file.content entry := by
  apply content_programAll_of_ne file
  intro setting member same
  have before := (exists_setting_iff record regions entry).mp ⟨setting, member, same⟩
  omega

/-- On a hart whose protection entries are there, hold all address bits and are off, configuration
always succeeds, and a byte is then decided by the first of the configured regions that guards it,
with exactly the permissions of that region. -/
theorem BootM.configure_enforces (record : FeatureRecord) (domain : Domain) (machine : Machine)
    (equipped : machine.hart.csrs.HasPmp Word.ones)
    (cleared : ∀ entry : Fin 64,
      machine.hart.csrs.value? (PmpSetting.configRegister entry) = some 0)
    (numbered : ∃ id, machine.hart.csrs.value? .mhartid = some id)
    (power : record.pmpGran = 0 ∨ ∃ exponent, record.pmpGran.toNat = 2 ^ exponent) :
    ∃ report after, configure record domain machine = .ok report after ∧
      (placed record 0 domain.regions).Sublist domain.regions ∧
      report.configured = (placed record 0 domain.regions).length ∧
      ∀ byte : Word, after.hart.lookup? byte =
        ((placed record 0 domain.regions).find?
          (·.guards (max 4 record.pmpGran.toNat) byte.toNat)).map
          (Protection.permissions ·.flags) := by
  obtain ⟨id, numbered⟩ := numbered
  obtain ⟨after, ran, registers, -⟩ :=
    gives_configure equipped numbered record domain machine rfl
  refine ⟨_, after, ran, placed_sublist record 0 domain.regions, rfl, fun byte => ?_⟩
  have held := equipped.holds_plan record domain.regions
  rw [← registers] at held
  have idle (entry : Fin 64) (past : (plan record 0 domain.regions).length ≤ entry.val) :
      MatchMode.ofOctet (after.hart.csrs.content entry).1 = .off := by
    rw [registers, CsrFile.content_past_plan _ record domain.regions past, CsrFile.content,
      cleared entry]
    simp only [PmpSetting.octetOf, Option.getD_some, BitVec.ofNat_eq_ofNat, BitVec.zero_ushiftRight]
    rfl
  rw [Hart.lookup?_eq_answer? (entries_plan record 0 domain.regions) idle,
    Hart.answer?_plan power held]

/-- A domain with a block, a block that is too small to be protected, a range whose end is rounded
down, and all memory. -/
def Domain.layered : Domain where
  name := "layered"
  bootHart := 0
  regions := [
    { base := 0x80000000, extent := .napot 12, flags := ⟨0b1101⟩ },
    { base := 0x80001000, extent := .napot 3, flags := ⟨0b0011⟩ },
    { base := 0x80000800, extent := .tor 0x1806, flags := ⟨0b0001⟩ },
    { base := 0, extent := .napot 64, flags := ⟨0b0111⟩ }]

theorem BootM.configure_enforces_layered :
    let record : FeatureRecord := { pmpCount := 4, pmpGran := 16, pmpAddrBits := 54 }
    let machine : Machine := ⟨Hart.numbered.withPmp Word.ones, .blank, {}⟩
    (machine.hart.csrs.HasPmp Word.ones ∧
      (∀ entry : Fin 64, machine.hart.csrs.value? (PmpSetting.configRegister entry) = some 0) ∧
      (∃ id, machine.hart.csrs.value? .mhartid = some id) ∧
      ∃ exponent, record.pmpGran.toNat = 2 ^ exponent) ∧
    ∃ report after, configure record Domain.layered machine = .ok report after ∧
      report.configured = 3 ∧
      after.hart.lookup? 0x80000ffc = some ⟨0b10000101⟩ ∧
      after.hart.lookup? 0x80001fff = some ⟨0b001⟩ ∧
      after.hart.lookup? 0x80002000 = some ⟨0b111⟩ := by
  intro record machine
  have equipped : machine.hart.csrs.HasPmp Word.ones := Hart.hasPmp_withPmp Hart.numbered Word.ones
  have cleared := Hart.value?_withPmp_config Hart.numbered Word.ones
  have numbered : ∃ id, machine.hart.csrs.value? .mhartid = some id :=
    ⟨0, Hart.value?_numbered_withPmp Word.ones⟩
  have power : ∃ exponent, record.pmpGran.toNat = 2 ^ exponent := ⟨4, rfl⟩
  obtain ⟨report, after, ran, -, configured, enforced⟩ :=
    configure_enforces record Domain.layered machine equipped cleared numbered (.inr power)
  refine ⟨⟨equipped, cleared, numbered, power⟩, report, after, ran, ?_, ?_, ?_, ?_⟩
  · rw [configured]
    decide +kernel
  · rw [enforced]
    decide +kernel
  · rw [enforced]
    decide +kernel
  · rw [enforced]
    decide +kernel

end HartBoot
