import HartBoot.Hart.Build
import HartBoot.Pmp.Lookup
import HartBoot.Proofs.Access
import HartBoot.Proofs.Bits

/-! # Protection entries in a register file

What a hart holds of an entry is an octet of a configuration register and an address register.
Programming an entry replaces exactly that pair, although eight entries share a register, and the
address keeps only the bits that the register has. A list of settings with different entries
therefore leaves each of them in its place, whatever the order.
-/

namespace HartBoot

namespace PmpSetting

/-- The octet of an entry within its configuration register. -/
def octetOf (register : Word) (entry : Fin 64) : Byte :=
  (register >>> octetShift entry).setWidth 8

theorem configRegister_inj {left right : Fin 64} :
    configRegister left = configRegister right ↔ left.val / 8 = right.val / 8 := by
  rw [configRegister, configRegister, Csr.pmpcfg_inj, Fin.mk.injEq]
  omega

/-- Replacing an octet, bit by bit. -/
theorem getLsbD_replaceOctet (register : Word) (octet : Byte) (entry : Fin 64) {position : Nat}
    (inside : position < 64) :
    (replaceOctet register (octetShift entry) octet).getLsbD position =
      if position / 8 = entry.val % 8 then octet.getLsbD (position % 8)
      else register.getLsbD position := by
  have ones : (0xff : Word) = Word.lowMask 8 := rfl
  simp only [replaceOctet, BitVec.getLsbD_or, BitVec.getLsbD_and, BitVec.getLsbD_not,
    BitVec.getLsbD_shiftLeft, BitVec.getLsbD_setWidth, ones,
    Word.getLsbD_lowMask (by decide : 8 < 64), inside, decide_true, Bool.true_and]
  split
  next same =>
    have reached : ¬position < octetShift entry := by
      unfold octetShift
      omega
    have place : position - octetShift entry = position % 8 := by
      unfold octetShift
      omega
    have small : position % 8 < 8 := Nat.mod_lt _ (by decide)
    have bounded : position % 8 < 64 := by omega
    simp [reached, place, small, bounded]
  next apart =>
    by_cases below : position < octetShift entry
    · simp [below]
    · have above : ¬position - octetShift entry < 8 := by
        unfold octetShift at below ⊢
        omega
      have beyond : octet.getLsbD (position - octetShift entry) = false :=
        BitVec.getLsbD_of_ge _ _ (Nat.not_lt.mp above)
      simp [below, above, beyond]

theorem octetShift_add_lt (entry : Fin 64) {position : Nat} (small : position < 8) :
    octetShift entry + position < 64 := by
  unfold octetShift
  omega

theorem octetShift_add_div (entry : Fin 64) {position : Nat} (small : position < 8) :
    (octetShift entry + position) / 8 = entry.val % 8 := by
  unfold octetShift
  omega

theorem octetShift_add_mod (entry : Fin 64) {position : Nat} (small : position < 8) :
    (octetShift entry + position) % 8 = position := by
  unfold octetShift
  omega

theorem getLsbD_octetOf (register : Word) (entry : Fin 64) {position : Nat} (small : position < 8) :
    (octetOf register entry).getLsbD position =
      register.getLsbD (octetShift entry + position) := by
  rw [octetOf, BitVec.getLsbD_setWidth, BitVec.getLsbD_ushiftRight, decide_eq_true small,
    Bool.true_and]

/-- Replacing an octet leaves the others of the register alone. -/
theorem octetOf_replaceOctet (register : Word) (octet : Byte) (written entry : Fin 64) :
    octetOf (replaceOctet register (octetShift written) octet) entry =
      if octetShift written = octetShift entry then octet else octetOf register entry := by
  apply BitVec.eq_of_getLsbD_eq
  intro position small
  have octets : octetShift written = octetShift entry ↔ entry.val % 8 = written.val % 8 := by
    unfold octetShift
    omega
  rw [getLsbD_octetOf _ _ small, getLsbD_replaceOctet _ _ _ (octetShift_add_lt entry small),
    octetShift_add_div entry small, octetShift_add_mod entry small]
  simp only [octets]
  split
  · rfl
  · exact (getLsbD_octetOf _ _ small).symm

end PmpSetting

namespace Register

/-- A configuration register after the octet of an entry is replaced in what it holds. -/
def putOctet (register : Register) (entry : Fin 64) (octet : Byte) : Register :=
  register.store (PmpSetting.replaceOctet register.value (PmpSetting.octetShift entry) octet)

@[simp] theorem writable_putOctet (register : Register) (entry : Fin 64) (octet : Byte) :
    (register.putOctet entry octet).writable = register.writable := rfl

@[simp] theorem readOnly_putOctet (register : Register) (entry : Fin 64) (octet : Byte) :
    (register.putOctet entry octet).readOnly = register.readOnly := rfl

/-- Replacing an octet changes its writable bits and no others. -/
theorem getLsbD_putOctet (register : Register) (entry : Fin 64) (octet : Byte) {position : Nat}
    (inside : position < 64) :
    (register.putOctet entry octet).value.getLsbD position =
      if register.writable.getLsbD position = true ∧ position / 8 = entry.val % 8 then
        octet.getLsbD (position % 8)
      else register.value.getLsbD position := by
  rw [putOctet, store, getLsbD_settle, PmpSetting.getLsbD_replaceOctet _ _ _ inside, ite_and]

end Register

namespace PmpSetting

theorem octetOf_putOctet_of_ne (register : Register) {written entry : Fin 64}
    (apart : entry.val % 8 ≠ written.val % 8) (octet : Byte) :
    octetOf (register.putOctet written octet).value entry = octetOf register.value entry := by
  apply BitVec.eq_of_getLsbD_eq
  intro position small
  rw [getLsbD_octetOf _ _ small, getLsbD_octetOf _ _ small,
    Register.getLsbD_putOctet _ _ _ (octetShift_add_lt entry small), octetShift_add_div entry small,
    if_neg fun both => apart both.2]

/-- What programming an entry makes of a register. -/
def revise (setting : PmpSetting) (csr : Csr) (register : Register) : Register :=
  if register.readOnly then register
  else if csr = Csr.pmpaddr setting.entry then register.store setting.address
  else if csr = configRegister setting.entry then
    register.putOctet setting.entry setting.config.bits
  else register

theorem pmpaddr_ne_configRegister (entry other : Fin 64) :
    Csr.pmpaddr entry ≠ configRegister other := Csr.pmpaddr_ne_pmpcfg _ _

/-- Different entries that share a configuration register have different octets of it. -/
theorem octet_ne_of_shared {first second : Fin 64} (distinct : first ≠ second)
    (shared : configRegister first = configRegister second) : first.val % 8 ≠ second.val % 8 := by
  have row := configRegister_inj.mp shared
  rw [Ne, Fin.ext_iff] at distinct
  omega

end PmpSetting

namespace CsrFile

/-- What a register file holds of an entry: its octet and its address. Absent registers read as
zero. -/
def content (file : CsrFile) (entry : Fin 64) : Byte × Word :=
  (PmpSetting.octetOf ((file.value? (PmpSetting.configRegister entry)).getD 0) entry,
    (file.value? (Csr.pmpaddr entry)).getD 0)

/-- All protection entries are there. Their address registers hold the given bits, the others being
zero for good, and their configuration registers hold any octets. -/
structure HasPmp (bits : Word) (file : CsrFile) : Prop where
  addresses : ∀ entry : Fin 64, ∃ value : Word,
    file[Csr.pmpaddr entry]? = some { value, writable := bits } ∧ value &&& ~~~bits = 0
  configs : ∀ entry : Fin 64, ∃ value : Word,
    file[PmpSetting.configRegister entry]? = some { value, writable := Word.ones }

/-- The registers of every entry accept writes, whichever bits of them they keep. -/
def AcceptsPmp (file : CsrFile) : Prop :=
  ∀ entry : Fin 64, file.accepts (Csr.pmpaddr entry) = true ∧
    file.accepts (PmpSetting.configRegister entry) = true

/-- The registers after an entry is programmed. -/
def program (file : CsrFile) (setting : PmpSetting) : CsrFile :=
  let register := PmpSetting.configRegister setting.entry
  (file.write (Csr.pmpaddr setting.entry) setting.address).write register
    (PmpSetting.replaceOctet ((file.value? register).getD 0)
      (PmpSetting.octetShift setting.entry) setting.config.bits)

/-- The registers after entries are programmed in turn. -/
def programAll (file : CsrFile) (settings : List PmpSetting) : CsrFile :=
  settings.foldl program file

variable {bits : Word} {file before after : CsrFile} {touched : Csr → Prop}

theorem HasPmp.accepts_address (equipped : file.HasPmp bits) (entry : Fin 64) :
    file.accepts (Csr.pmpaddr entry) = true := by
  obtain ⟨value, found, -⟩ := equipped.addresses entry
  exact accepts_iff.mpr ⟨_, found, rfl⟩

theorem HasPmp.accepts_config (equipped : file.HasPmp bits) (entry : Fin 64) :
    file.accepts (PmpSetting.configRegister entry) = true := by
  obtain ⟨value, found⟩ := equipped.configs entry
  exact accepts_iff.mpr ⟨_, found, rfl⟩

/-- Accepted writes do not take entries away. -/
theorem HasPmp.evolve (equipped : before.HasPmp bits) (evolves : Evolves touched before after) :
    after.HasPmp bits where
  addresses entry := by
    obtain ⟨value, found, clear⟩ := equipped.addresses entry
    obtain ⟨register, stored, rewritten⟩ := evolves.of_some found
    have wired : register.hardwired = value &&& ~~~bits := rewritten.hardwired_eq
    obtain ⟨content, writable, readOnly⟩ := register
    obtain rfl : writable = bits := rewritten.writable_eq
    obtain rfl : readOnly = false := rewritten.readOnly_eq
    exact ⟨content, stored, wired.trans clear⟩
  configs entry := by
    obtain ⟨value, found⟩ := equipped.configs entry
    obtain ⟨⟨content, writable, readOnly⟩, stored, rewritten⟩ := evolves.of_some found
    obtain rfl : writable = Word.ones := rewritten.writable_eq
    obtain rfl : readOnly = false := rewritten.readOnly_eq
    exact ⟨content, stored⟩

theorem HasPmp.write (equipped : file.HasPmp bits) (csr : Csr) (written : Word) :
    (file.write csr written).HasPmp bits :=
  equipped.evolve (@Evolves.write (fun _ => True) file csr trivial written)

theorem HasPmp.value?_write_address (equipped : file.HasPmp bits) (entry : Fin 64)
    (written : Word) :
    (file.write (Csr.pmpaddr entry) written).value? (Csr.pmpaddr entry) = some (written &&& bits) := by
  obtain ⟨value, found, clear⟩ := equipped.addresses entry
  simp only [value?, getElem?_write_self found rfl, Option.map_some, Register.store,
    Register.settle, Register.hardwired, clear, BitVec.ofNat_eq_ofNat, BitVec.zero_or]

theorem HasPmp.value?_write_config (equipped : file.HasPmp bits) (entry : Fin 64)
    (written : Word) :
    (file.write (PmpSetting.configRegister entry) written).value?
      (PmpSetting.configRegister entry) = some written := by
  obtain ⟨value, found⟩ := equipped.configs entry
  rw [value?, getElem?_write_self found rfl, Option.map_some, Register.store]
  exact congrArg some (Register.settle_of_writable_ones rfl written)

theorem evolves_program (file : CsrFile) (setting : PmpSetting) :
    Evolves (fun csr => csr = Csr.pmpaddr setting.entry ∨
      csr = PmpSetting.configRegister setting.entry) file (file.program setting) :=
  (Evolves.write file (.inl rfl) _).trans (.write _ (.inr rfl) _)

/-- Programming revises each register by itself. -/
theorem getElem?_program (file : CsrFile) (setting : PmpSetting) (csr : Csr) :
    (file.program setting)[csr]? = (file[csr]?).map (setting.revise csr) := by
  have apart := PmpSetting.pmpaddr_ne_configRegister setting.entry setting.entry
  unfold program PmpSetting.revise
  by_cases addressed : csr = Csr.pmpaddr setting.entry
  · subst addressed
    rw [getElem?_write_of_ne _ apart, getElem?_write]
    simp only [if_true]
  · by_cases configures : csr = PmpSetting.configRegister setting.entry
    · subst configures
      rw [getElem?_write, getElem?_write_of_ne _ addressed]
      simp only [if_neg addressed, if_true]
      cases found : file[PmpSetting.configRegister setting.entry]? with
      | none => rfl
      | some register =>
        simp only [value?_of_some found, Option.getD_some, Option.map_some, Register.putOctet]
    · rw [getElem?_write_of_ne _ configures, getElem?_write_of_ne _ addressed]
      simp only [if_neg addressed, if_neg configures, ite_self, Option.map_id']

/-- Programming leaves what a register file holds of the other entries as it is. -/
theorem content_program_of_ne (file : CsrFile) {setting : PmpSetting} {entry : Fin 64}
    (apart : setting.entry ≠ entry) : (file.program setting).content entry = file.content entry := by
  have address : (file.program setting)[Csr.pmpaddr entry]? = file[Csr.pmpaddr entry]? := by
    apply (evolves_program file setting).frame
    rintro (same | same)
    · exact apart (Csr.pmpaddr_inj.mp same).symm
    · exact PmpSetting.pmpaddr_ne_configRegister _ _ same
  have octet : PmpSetting.octetOf (((file.program setting).value?
      (PmpSetting.configRegister entry)).getD 0) entry = (file.content entry).1 := by
    rw [content, value?, value?, getElem?_program]
    cases file[PmpSetting.configRegister entry]? with
    | none => rfl
    | some register =>
      simp only [Option.map_some, Option.getD_some, PmpSetting.revise,
        if_neg (PmpSetting.pmpaddr_ne_configRegister setting.entry entry).symm]
      split
      · rfl
      · split
        next shared =>
          exact PmpSetting.octetOf_putOctet_of_ne _
            (PmpSetting.octet_ne_of_shared (Ne.symm apart) shared) _
        next => rfl
  rw [content, octet, value?, address]
  rfl

/-- Programming replaces the content of one entry and leaves that of all others. -/
theorem content_program (equipped : file.HasPmp bits) (setting : PmpSetting) (entry : Fin 64) :
    (file.program setting).content entry =
      if setting.entry = entry then (setting.config.bits, setting.address &&& bits)
      else file.content entry := by
  split
  next same =>
    subst same
    have ready := equipped.write (Csr.pmpaddr setting.entry) setting.address
    have apart := PmpSetting.pmpaddr_ne_configRegister setting.entry setting.entry
    rw [content, program, ready.value?_write_config, value?_write_of_ne _ apart,
      equipped.value?_write_address, Option.getD_some, Option.getD_some,
      PmpSetting.octetOf_replaceOctet, if_pos rfl]
  next apart => exact content_program_of_ne file apart

theorem HasPmp.program (equipped : file.HasPmp bits) (setting : PmpSetting) :
    (file.program setting).HasPmp bits := equipped.evolve (evolves_program file setting)

/-- Entries without a setting are as before. -/
theorem content_programAll_of_ne (file : CsrFile) {settings : List PmpSetting} {entry : Fin 64}
    (spared : ∀ setting ∈ settings, setting.entry ≠ entry) :
    (file.programAll settings).content entry = file.content entry := by
  induction settings generalizing file with
  | nil => rfl
  | cons setting rest ih =>
    have others := ih (file.program setting) fun other member =>
      spared other (List.mem_cons_of_mem _ member)
    have first := content_program_of_ne file (spared setting List.mem_cons_self)
    exact others.trans first

/-- Each of several different entries holds its setting. -/
theorem content_programAll_of_mem (equipped : file.HasPmp bits) {settings : List PmpSetting}
    (distinct : (settings.map PmpSetting.entry).Nodup) {setting : PmpSetting}
    (member : setting ∈ settings) :
    (file.programAll settings).content setting.entry =
      (setting.config.bits, setting.address &&& bits) := by
  induction settings generalizing file with
  | nil => exact absurd member (List.not_mem_nil)
  | cons first rest ih =>
    rw [List.map_cons, List.nodup_cons] at distinct
    rw [programAll, List.foldl_cons, ← programAll]
    rcases List.mem_cons.mp member with rfl | later
    · rw [content_programAll_of_ne (file.program setting), content_program equipped, if_pos rfl]
      intro other listed same
      exact distinct.1 (same ▸ List.mem_map_of_mem listed)
    · exact ih (equipped.program first) distinct.2 later

/-- The registers of every setting accept writes. -/
def Admits (file : CsrFile) (settings : List PmpSetting) : Prop :=
  ∀ setting ∈ settings, file.accepts (Csr.pmpaddr setting.entry) = true ∧
    file.accepts (PmpSetting.configRegister setting.entry) = true

theorem Admits.evolve {settings : List PmpSetting} (admits : before.Admits settings)
    (evolves : Evolves touched before after) : after.Admits settings := by
  intro setting member
  rw [evolves.accepts_eq, evolves.accepts_eq]
  exact admits setting member

theorem AcceptsPmp.admits (writable : file.AcceptsPmp) (settings : List PmpSetting) :
    file.Admits settings := fun setting _ => writable setting.entry

theorem AcceptsPmp.evolve (writable : before.AcceptsPmp) (evolves : Evolves touched before after) :
    after.AcceptsPmp := by
  intro entry
  rw [evolves.accepts_eq, evolves.accepts_eq]
  exact writable entry

theorem HasPmp.acceptsPmp (equipped : file.HasPmp bits) : file.AcceptsPmp :=
  fun entry => ⟨equipped.accepts_address entry, equipped.accepts_config entry⟩

/-- Programming goes no further than the registers of the entries that have a setting. -/
theorem evolves_programAll_own (file : CsrFile) (settings : List PmpSetting) :
    Evolves (fun csr => ∃ setting ∈ settings, csr = Csr.pmpaddr setting.entry ∨
      csr = PmpSetting.configRegister setting.entry) file (file.programAll settings) := by
  induction settings generalizing file with
  | nil => exact .refl _ file
  | cons setting rest ih =>
    refine ((evolves_program file setting).mono fun csr hit => ?_).trans
      ((ih (file.program setting)).mono fun csr hit => ?_)
    · exact ⟨setting, List.mem_cons_self, hit⟩
    · obtain ⟨other, member, named⟩ := hit
      exact ⟨other, List.mem_cons_of_mem setting member, named⟩

theorem evolves_programAll (file : CsrFile) (settings : List PmpSetting) :
    Evolves (fun csr => ∃ entry : Fin 64, csr = Csr.pmpaddr entry ∨
      csr = PmpSetting.configRegister entry) file (file.programAll settings) := by
  apply (evolves_programAll_own file settings).mono
  rintro csr ⟨setting, -, hit⟩
  exact ⟨setting.entry, hit⟩

end CsrFile

/-- A hart reads its entries back from its registers. -/
theorem Hart.reading_eq (hart : Hart) (entry : Fin 64) : hart.reading entry = {
    octet := (hart.csrs.content entry).1
    address := (hart.csrs.content entry).2
    previous := if entry.val = 0 then 0 else (hart.csrs.content (entry - 1)).2 } := by
  have octet : (hart.octet? entry).getD 0 = (hart.csrs.content entry).1 := by
    have same : hart.csrs.value? (PmpSetting.configRegister entry) =
        hart.value? (PmpSetting.configRegister entry) := rfl
    simp only [octet?, CsrFile.content, same]
    cases hart.value? (PmpSetting.configRegister entry) with
    | none => simp [PmpSetting.octetOf]
    | some register => rfl
  rw [reading, octet]
  rfl

/-- Implementing registers in turn gives all of them the same content. -/
theorem Hart.getElem?_foldl_implement (csrs : List Csr) (value writable : Word) (hart : Hart)
    (csr : Csr) : (csrs.foldl (·.implement · value writable) hart).csrs[csr]? =
      if csr ∈ csrs then some { value, writable } else hart.csrs[csr]? := by
  induction csrs generalizing hart with
  | nil => simp
  | cons first rest ih =>
    rw [List.foldl_cons, ih, implement, CsrFile.getElem?_insert_eq]
    by_cases later : csr ∈ rest
    · simp [later]
    · by_cases same : csr = first
      · simp [same]
      · simp [later, same, Ne.symm same]

/-- Entries accept writes as before when a register is implemented that keeps some bits. -/
theorem Hart.acceptsPmp_implement {hart : Hart} (writable : hart.csrs.AcceptsPmp) (csr : Csr)
    (value mask : Word) : (hart.implement csr value mask).csrs.AcceptsPmp := by
  have still (other : Csr) (accepts : hart.csrs.accepts other = true) :
      (hart.implement csr value mask).csrs.accepts other = true := by
    rw [CsrFile.accepts, implement, CsrFile.getElem?_insert_eq]
    split
    · rfl
    · exact accepts
  intro entry
  exact ⟨still _ (writable entry).1, still _ (writable entry).2⟩

/-- A hart with all protection entries added, whose addresses hold the given bits. -/
def Hart.withPmp (hart : Hart) (bits : Word) : Hart :=
  let addressed := ((List.finRange 64).map Csr.pmpaddr).foldl (·.implement · 0 bits) hart
  ((List.finRange 64).map PmpSetting.configRegister).foldl (·.implement · 0 Word.ones) addressed

namespace Hart

theorem getElem?_withPmp_config (hart : Hart) (bits : Word) (entry : Fin 64) :
    (hart.withPmp bits).csrs[PmpSetting.configRegister entry]? =
      some { value := 0, writable := Word.ones } := by
  have listed := List.mem_map_of_mem (f := PmpSetting.configRegister) (List.mem_finRange entry)
  rw [withPmp, getElem?_foldl_implement, if_pos listed]

theorem getElem?_withPmp_address (hart : Hart) (bits : Word) (entry : Fin 64) :
    (hart.withPmp bits).csrs[Csr.pmpaddr entry]? = some { value := 0, writable := bits } := by
  have listed := List.mem_map_of_mem (f := Csr.pmpaddr) (List.mem_finRange entry)
  have unlisted : Csr.pmpaddr entry ∉ (List.finRange 64).map PmpSetting.configRegister := by
    intro member
    obtain ⟨other, -, same⟩ := List.mem_map.mp member
    exact Csr.pmpaddr_ne_pmpcfg _ _ same.symm
  rw [withPmp, getElem?_foldl_implement, if_neg unlisted, getElem?_foldl_implement, if_pos listed]

theorem hasPmp_withPmp (hart : Hart) (bits : Word) : (hart.withPmp bits).csrs.HasPmp bits where
  addresses entry := ⟨0, getElem?_withPmp_address hart bits entry, BitVec.zero_and⟩
  configs entry := ⟨0, getElem?_withPmp_config hart bits entry⟩

theorem value?_withPmp_config (hart : Hart) (bits : Word) (entry : Fin 64) :
    (hart.withPmp bits).csrs.value? (PmpSetting.configRegister entry) = some 0 :=
  CsrFile.value?_of_some (getElem?_withPmp_config hart bits entry)

/-- Registers numbered outside of memory protection are those of the hart without it. -/
theorem getElem?_withPmp_of_outside (hart : Hart) (bits : Word) {csr : Csr}
    (outside : csr.number.toNat < 0x3a0 ∨ 0x3f0 ≤ csr.number.toNat) :
    (hart.withPmp bits).csrs[csr]? = hart.csrs[csr]? := by
  have noConfig : csr ∉ (List.finRange 64).map PmpSetting.configRegister := by
    intro member
    obtain ⟨entry, -, rfl⟩ := List.mem_map.mp member
    rw [PmpSetting.configRegister, Csr.number_pmpcfg] at outside
    dsimp only at outside
    omega
  have noAddress : csr ∉ (List.finRange 64).map Csr.pmpaddr := by
    intro member
    obtain ⟨entry, -, rfl⟩ := List.mem_map.mp member
    rw [Csr.number_pmpaddr] at outside
    omega
  rw [withPmp, getElem?_foldl_implement, if_neg noConfig, getElem?_foldl_implement,
    if_neg noAddress]

/-- A hart that has nothing but its number. -/
def numbered : Hart := ({} : Hart).implementReadOnly .mhartid 0

theorem value?_numbered_withPmp (bits : Word) :
    (numbered.withPmp bits).csrs.value? .mhartid = some 0 := by
  rw [CsrFile.value?, getElem?_withPmp_of_outside numbered bits (.inr (by decide)), numbered,
    implementReadOnly, CsrFile.getElem?_insert_eq, if_pos rfl, Option.map_some]

end Hart

end HartBoot
