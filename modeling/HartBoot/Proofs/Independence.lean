import HartBoot.Proofs.Checked
import Mathlib.Data.List.Perm.Basic

/-! # Entries are programmed independently of each other

Eight entries share a configuration register. To replace the octet of one, the register is read and
written back as a whole, and it keeps of that what it can. Bit by bit, an entry still revises nothing
but its own octet, whatever the other bits are and whether they can be written. Settings of different
entries can therefore be programmed in any order. A protection that takes entries that do not exist,
or whose size has no encoding, is refused before any register is looked at.
-/

namespace HartBoot

namespace Register

/-- Octets of different places are replaced in any order. -/
theorem putOctet_comm (register : Register) {first second : Fin 64}
    (apart : first.val % 8 ≠ second.val % 8) (octet other : Byte) :
    (register.putOctet first octet).putOctet second other =
      (register.putOctet second other).putOctet first octet := by
  have same : ((register.putOctet first octet).putOctet second other).value =
      ((register.putOctet second other).putOctet first octet).value := by
    apply BitVec.eq_of_getLsbD_eq
    intro position inside
    simp only [getLsbD_putOctet _ _ _ inside, writable_putOctet]
    by_cases early : position / 8 = first.val % 8
    · have late : position / 8 ≠ second.val % 8 := fun late => apart (early.symm.trans late)
      simp only [late, and_false, if_false]
    · simp only [early, and_false, if_false]
  exact congrArg (fun value => { register with value }) same

/-- What the octet of an entry holds after another octet is written to it. -/
def settleOctet (register : Register) (entry : Fin 64) (octet : Byte) : Byte :=
  PmpSetting.octetOf register.hardwired entry |||
    (octet &&& PmpSetting.octetOf register.writable entry)

theorem octetOf_putOctet_self (register : Register) (entry : Fin 64) (octet : Byte) :
    PmpSetting.octetOf (register.putOctet entry octet).value entry =
      register.settleOctet entry octet := by
  apply BitVec.eq_of_getLsbD_eq
  intro position small
  have inside := PmpSetting.octetShift_add_lt entry small
  rw [PmpSetting.getLsbD_octetOf _ _ small, getLsbD_putOctet _ _ _ inside,
    PmpSetting.octetShift_add_div entry small, PmpSetting.octetShift_add_mod entry small,
    settleOctet, BitVec.getLsbD_or, BitVec.getLsbD_and, PmpSetting.getLsbD_octetOf _ _ small,
    PmpSetting.getLsbD_octetOf _ _ small, hardwired, BitVec.getLsbD_and, BitVec.getLsbD_not]
  cases register.writable.getLsbD (PmpSetting.octetShift entry + position) with
  | false => simp [inside]
  | true => simp

end Register

namespace PmpSetting

variable {setting first second : PmpSetting} {csr : Csr}

/-- Programming an entry leaves all registers but its own two as they are. -/
theorem revise_of_not_mem (spared : csr ∉ registers setting.entry) (register : Register) :
    setting.revise csr register = register := by
  simp only [registers, List.mem_cons, List.not_mem_nil, or_false, not_or] at spared
  rw [revise, if_neg spared.1, if_neg spared.2, ite_self]

/-- Different entries share a configuration register at most. -/
theorem eq_configRegister_of_shared {entry other : Fin 64} (distinct : entry ≠ other)
    (here : csr ∈ registers entry) (there : csr ∈ registers other) :
    csr = configRegister entry ∧ csr = configRegister other := by
  simp only [registers, List.mem_cons, List.not_mem_nil, or_false] at here there
  rcases here with rfl | rfl
  · rcases there with same | same
    · exact absurd (Csr.pmpaddr_inj.mp same) distinct
    · exact absurd same (pmpaddr_ne_configRegister entry other)
  · rcases there with same | same
    · exact absurd same.symm (pmpaddr_ne_configRegister other entry)
    · exact ⟨rfl, same⟩

theorem revise_configRegister (setting : PmpSetting) (register : Register) :
    setting.revise (configRegister setting.entry) register =
      if register.readOnly then register
      else register.putOctet setting.entry setting.config.bits := by
  rw [revise, if_neg (pmpaddr_ne_configRegister _ _).symm, if_pos rfl]

/-- Settings of different entries revise any register in any order. -/
theorem revise_comm (distinct : first.entry ≠ second.entry) (csr : Csr) (register : Register) :
    second.revise csr (first.revise csr register) =
      first.revise csr (second.revise csr register) := by
  by_cases here : csr ∈ registers first.entry
  · by_cases there : csr ∈ registers second.entry
    · obtain ⟨rfl, shared⟩ := eq_configRegister_of_shared distinct here there
      have octets := octet_ne_of_shared distinct shared
      have late := revise_configRegister second
      rw [← shared] at late
      simp only [revise_configRegister first, late]
      cases locked : register.readOnly with
      | true => simp only [if_true, locked]
      | false =>
        simp only [Register.readOnly_putOctet, locked, Bool.false_eq_true, if_false]
        exact register.putOctet_comm octets _ _
    · rw [revise_of_not_mem there, revise_of_not_mem there]
  · rw [revise_of_not_mem here, revise_of_not_mem here]

end PmpSetting

namespace CsrFile

variable {settings others : List PmpSetting}

theorem program_comm (file : CsrFile) {first second : PmpSetting}
    (distinct : first.entry ≠ second.entry) :
    (file.program first).program second = (file.program second).program first := by
  apply Std.ExtTreeMap.ext_getElem?
  intro csr
  simp only [getElem?_program, Option.map_map]
  congr 1
  funext register
  exact PmpSetting.revise_comm distinct csr register

/-- Settings of different entries are programmed in any order. -/
theorem programAll_perm (file : CsrFile) (distinct : (settings.map PmpSetting.entry).Nodup)
    (perm : settings.Perm others) : file.programAll settings = file.programAll others := by
  apply perm.foldl_eq'
  intro first here second there file
  by_cases same : first.entry = second.entry
  · obtain rfl : first = second := List.inj_on_of_nodup_map distinct here there same
    rfl
  · exact file.program_comm same

theorem programAll_append (file : CsrFile) (first second : List PmpSetting) :
    file.programAll (first ++ second) = (file.programAll first).programAll second :=
  List.foldl_append

/-- Each of several different entries holds what it holds when nothing else is programmed. -/
theorem content_programAll_of_nodup (file : CsrFile)
    (distinct : (settings.map PmpSetting.entry).Nodup) {setting : PmpSetting}
    (member : setting ∈ settings) :
    (file.programAll settings).content setting.entry =
      (file.program setting).content setting.entry := by
  have perm := List.perm_cons_erase member
  have moved := (perm.map PmpSetting.entry).nodup_iff.mp distinct
  rw [List.map_cons, List.nodup_cons] at moved
  rw [programAll_perm file distinct perm, programAll, List.foldl_cons, ← programAll]
  apply content_programAll_of_ne
  intro other listed same
  exact moved.1 (same ▸ List.mem_map_of_mem listed)

/-- A programmed entry holds what its registers keep of its setting. -/
theorem content_program_self {file : CsrFile} {setting : PmpSetting} {config address : Register}
    (configured : file[PmpSetting.configRegister setting.entry]? = some config)
    (addressed : file[Csr.pmpaddr setting.entry]? = some address)
    (unlocked : config.readOnly = false ∧ address.readOnly = false) :
    (file.program setting).content setting.entry =
      (config.settleOctet setting.entry setting.config.bits, address.settle setting.address) := by
  have revised : setting.revise (Csr.pmpaddr setting.entry) address =
      address.store setting.address := by
    rw [PmpSetting.revise, if_neg (by simp [unlocked.2]), if_pos rfl]
  simp only [content, value?, getElem?_program, configured, addressed, Option.map_some,
    Option.getD_some, PmpSetting.revise_configRegister, unlocked.1, Bool.false_eq_true, if_false,
    Register.octetOf_putOctet_self, revised]
  rfl

/-- One file is what another becomes when the given entries are programmed: each of these holds what
its registers keep of its setting, every other entry holds what it did, and no other register is
written to. -/
structure Programs (before : CsrFile) (settings : List PmpSetting) (after : CsrFile) : Prop where
  evolves : Evolves (fun csr => ∃ setting ∈ settings, csr = Csr.pmpaddr setting.entry ∨
    csr = PmpSetting.configRegister setting.entry) before after
  held : ∀ setting ∈ settings, ∃ config address,
    before[PmpSetting.configRegister setting.entry]? = some config ∧
    before[Csr.pmpaddr setting.entry]? = some address ∧
    after.content setting.entry =
      (config.settleOctet setting.entry setting.config.bits, address.settle setting.address)
  spared : ∀ entry, (∀ setting ∈ settings, setting.entry ≠ entry) →
    after.content entry = before.content entry

theorem programs_programAll {file : CsrFile} (distinct : (settings.map PmpSetting.entry).Nodup)
    (admits : file.Admits settings) : file.Programs settings (file.programAll settings) where
  evolves := file.evolves_programAll_own settings
  held setting member := by
    obtain ⟨address, addressed, free⟩ := accepts_iff.mp (admits setting member).1
    obtain ⟨config, configured, unlocked⟩ := accepts_iff.mp (admits setting member).2
    refine ⟨config, address, configured, addressed, ?_⟩
    rw [content_programAll_of_nodup file distinct member,
      content_program_self configured addressed ⟨unlocked, free⟩]
  spared entry apart := file.content_programAll_of_ne apart

end CsrFile

/-- The reasons for which a protection is refused: the last entry that it takes does not exist, or it
is a block of a size that has no encoding. -/
inductive Protection.Refused : Protection → (entry : Nat) → PmpError → Prop
  | block {base : Word} {order : Nat} {flags : PmpFlags} {entry : Nat} (beyond : 64 ≤ entry) :
      Refused (.napot base order flags) entry (.invalidEntry entry)
  | size {base : Word} {order : Nat} {flags : PmpFlags} {entry : Nat} (inside : entry < 64)
      (outside : order < 2 ∨ 64 < order) :
      Refused (.napot base order flags) entry (.invalidOrder order)
  | range {start limit : Word} {flags : PmpFlags} {entry : Nat} (beyond : 64 ≤ entry + 1) :
      Refused (.tor start limit flags) entry (.invalidEntry (entry + 1))

variable {protection other : Protection} {entry place : Nat}

namespace Protection

theorem refused_of_encode? {error : PmpError} (failed : protection.encode? entry = .error error) :
    protection.Refused entry error := by
  cases protection with
  | napot base order flags =>
    rw [encode?, encodeBlock?] at failed
    split at failed
    next inside =>
      split at failed
      next => cases failed
      next unsized =>
        obtain rfl := Except.error.inj failed
        unfold minOrder maxOrder at unsized
        exact .size inside (by omega)
    next beyond =>
      obtain rfl := Except.error.inj failed
      exact .block (Nat.not_lt.mp beyond)
  | tor start limit flags =>
    rw [encode?, encodeRange?] at failed
    split at failed
    next => cases failed
    next beyond =>
      obtain rfl := Except.error.inj failed
      exact .range (Nat.not_lt.mp beyond)

theorem Refused.encode?_eq {error : PmpError} (refused : protection.Refused entry error) :
    protection.encode? entry = .error error := by
  cases refused with
  | block beyond => rw [encode?, encodeBlock?, dif_neg (Nat.not_lt.mpr beyond)]
  | size inside outside =>
    rw [encode?, encodeBlock?, dif_pos inside, if_neg]
    unfold minOrder maxOrder
    omega
  | range beyond => rw [encode?, encodeRange?, dif_neg (Nat.not_lt.mpr beyond)]

/-- The settings of a protection are settings of different entries. -/
theorem nodup_entries_of_encode? {settings : List PmpSetting}
    (encoded : protection.encode? entry = .ok settings) :
    (settings.map PmpSetting.entry).Nodup := by
  apply List.Nodup.of_map Fin.val
  rw [List.map_map]
  exact entries_of_encode? encoded ▸ List.nodup_range'

end Protection

namespace CsrFile

/-- The registers after a protection is programmed from an entry onwards, unless it is refused. -/
def protect (file : CsrFile) (protection : Protection) (entry : Nat) : CsrFile :=
  match protection.encode? entry with
  | .ok settings => file.programAll settings
  | .error _ => file

theorem evolves_protect (file : CsrFile) (protection : Protection) (entry : Nat) :
    Evolves (fun csr => ∃ entry : Fin 64, csr = Csr.pmpaddr entry ∨
      csr = PmpSetting.configRegister entry) file (file.protect protection entry) := by
  unfold protect
  cases protection.encode? entry with
  | ok settings => exact file.evolves_programAll settings
  | error error => exact .refl _ file

/-- Protections that take different entries are programmed in any order. -/
theorem protect_comm (file : CsrFile)
    (apart : entry + protection.slots ≤ place ∨ place + other.slots ≤ entry) :
    (file.protect protection entry).protect other place =
      (file.protect other place).protect protection entry := by
  unfold protect
  cases here : protection.encode? entry with
  | error error => rfl
  | ok first =>
    cases there : other.encode? place with
    | error error => rfl
    | ok second =>
      have distinct : ((first ++ second).map PmpSetting.entry).Nodup := by
        apply List.Nodup.of_map Fin.val
        rw [List.map_map, List.map_append]
        have early : first.map (Fin.val ∘ PmpSetting.entry) = _ :=
          Protection.entries_of_encode? here
        have late : second.map (Fin.val ∘ PmpSetting.entry) = _ :=
          Protection.entries_of_encode? there
        rw [early, late]
        refine List.nodup_append.mpr ⟨List.nodup_range', List.nodup_range', ?_⟩
        intro left inFirst right inSecond same
        rw [List.mem_range'_1] at inFirst inSecond
        omega
      dsimp only
      rw [← programAll_append, ← programAll_append]
      exact programAll_perm file distinct List.perm_append_comm

end CsrFile

namespace HartM

/-- What programming a protection answers. -/
def protectAnswer (protection : Protection) (entry : Nat) : Except PmpError Unit :=
  (protection.encode? entry).map fun _ => ()

variable {file : CsrFile} {outages : List Outage}

/-- Where protection entries accept writes, programming a protection never stops the hart. -/
theorem gives_protect (writable : file.AcceptsPmp) (protection : Protection)
    (counted : entry + 1 ≤ Word.ones.toNat) :
    Gives outages (protect protection entry) file (protectAnswer protection entry)
      (file.protect protection entry) := by
  rw [protect_eq protection counted, protectAnswer, CsrFile.protect]
  cases protection.encode? entry with
  | error error => exact .pure _ file
  | ok settings =>
    rintro hart rfl rfl
    obtain ⟨ran, programmed⟩ := applySettings_ok (writable.admits settings)
    exact ⟨_, ran, programmed, (hart.logs_setAll _).outages⟩

/-- Two protections are programmed one after the other. -/
theorem gives_protect_both (writable : file.AcceptsPmp) (protection other : Protection)
    (counted : entry + 1 ≤ Word.ones.toNat) (further : place + 1 ≤ Word.ones.toNat) :
    Gives outages (do return (← protect protection entry, ← protect other place)) file
      (protectAnswer protection entry, protectAnswer other place)
      ((file.protect protection entry).protect other place) := by
  have still := writable.evolve (file.evolves_protect protection entry)
  exact (gives_protect writable protection counted).bind
    ((gives_protect still other further).map _)

theorem protect_of_refused {error : PmpError} (refused : protection.Refused entry error)
    (counted : entry + 1 ≤ Word.ones.toNat) : protect protection entry = pure (.error error) := by
  rw [protect_eq protection counted, refused.encode?_eq]
  rfl

theorem protectAnswer_eq_error_iff {error : PmpError} :
    protectAnswer protection entry = .error error ↔ protection.Refused entry error := by
  constructor
  · intro answered
    cases encoded : protection.encode? entry with
    | ok settings =>
      rw [protectAnswer, encoded] at answered
      cases answered
    | error reason =>
      rw [protectAnswer, encoded] at answered
      cases answered
      exact Protection.refused_of_encode? encoded
  · intro refused
    rw [protectAnswer, refused.encode?_eq]
    rfl

/-- Where protection entries accept writes, programming a block (`setBlock`) or a range (`setRange`)
never stops the hart. It is refused for the reasons given and no others, and then the hart makes no
access at all. Else its entries hold what their registers keep of its settings, and everything else
is as before: the other entries, those in the same configuration registers among them, and all other
registers. Protections that take different entries can be programmed in any order. -/
theorem protect_independent {hart : Hart} (writable : hart.csrs.AcceptsPmp)
    (protection : Protection) {entry : Nat} (counted : entry < 2 ^ 64 - 1) :
    (∀ error, (∃ after, protect protection entry hart = .ok (.error error) after) ↔
      protection.Refused entry error) ∧
    (∀ error, protection.Refused entry error →
      protect protection entry = pure (.error error)) ∧
    ((∀ error, ¬protection.Refused entry error) →
      ∃ settings after, protection.encode? entry = .ok settings ∧
        settings.map (·.entry.val) = List.range' entry protection.slots ∧
        protect protection entry hart = .ok (.ok ()) after ∧
        hart.csrs.Programs settings after.csrs) ∧
    ∀ (other : Protection) (place : Nat), place < 2 ^ 64 - 1 →
      entry + protection.slots ≤ place ∨ place + other.slots ≤ entry →
      ∃ forth back,
        (do return (← protect protection entry, ← protect other place)) hart =
          .ok (protectAnswer protection entry, protectAnswer other place) forth ∧
        (do return (← protect other place, ← protect protection entry)) hart =
          .ok (protectAnswer other place, protectAnswer protection entry) back ∧
        back.csrs = forth.csrs := by
  have limit : Word.ones.toNat = 2 ^ 64 - 1 := rfl
  have reached : entry + 1 ≤ Word.ones.toNat := by omega
  obtain ⟨after, ran, registers, -⟩ := gives_protect writable protection reached hart rfl rfl
  refine ⟨?_, ?_, ?_, ?_⟩
  · intro error
    rw [← protectAnswer_eq_error_iff, ran]
    constructor
    · rintro ⟨_, same⟩
      exact (EStateM.Result.ok.inj same).1
    · intro same
      exact ⟨after, by rw [same]⟩
  · exact fun error refused => protect_of_refused refused reached
  · intro accepted
    cases encoded : protection.encode? entry with
    | error error => exact absurd (Protection.refused_of_encode? encoded) (accepted error)
    | ok settings =>
      have distinct := Protection.nodup_entries_of_encode? encoded
      have admits := writable.admits settings
      refine ⟨settings, after, rfl, Protection.entries_of_encode? encoded, ?_, ?_⟩
      · rw [ran, protectAnswer, encoded]
        rfl
      · rw [registers, CsrFile.protect, encoded]
        exact CsrFile.programs_programAll distinct admits
  · intro other place further apart
    have beyond : place + 1 ≤ Word.ones.toNat := by omega
    obtain ⟨forth, ranForth, finalForth, -⟩ :=
      gives_protect_both writable protection other reached beyond hart rfl rfl
    obtain ⟨back, ranBack, finalBack, -⟩ :=
      gives_protect_both writable other protection beyond reached hart rfl rfl
    refine ⟨forth, back, ranForth, ranBack, ?_⟩
    rw [finalForth, finalBack]
    exact (hart.csrs.protect_comm apart).symm

/-- A range takes the last octet of one configuration register and the first of the next, where no
lock can be set. The block behind it has its octet in the latter. -/
theorem protect_independent_straddling :
    let hart := (Hart.numbered.withPmp (Word.lowMask 54)).implement (.pmpcfg 2) 0x8000
      0x7f7f7f7f7f7f7f7f
    let range : Protection := .tor 0x80000000 0x80001000 ⟨0b10011011⟩
    let block : Protection := .napot 0x90000000 12 ⟨0b00001101⟩
    (hart.csrs.AcceptsPmp ∧ 7 < 2 ^ 64 - 1 ∧ 9 < 2 ^ 64 - 1) ∧
    (∃ settings after, settings.map (·.entry) = [7, 8] ∧
      HartM.protect range 7 hart = .ok (.ok ()) after ∧ hart.csrs.Programs settings after.csrs) ∧
    ∃ forth back,
      (do return (← protect range 7, ← protect block 9)) hart = .ok (.ok (), .ok ()) forth ∧
      (do return (← protect block 9, ← protect range 7)) hart = .ok (.ok (), .ok ()) back ∧
      back.csrs = forth.csrs := by
  intro hart range block
  have equipped := Hart.hasPmp_withPmp Hart.numbered (Word.lowMask 54)
  have writable : hart.csrs.AcceptsPmp := Hart.acceptsPmp_implement equipped.acceptsPmp _ _ _
  have accepted : ∀ error, ¬range.Refused 7 error := by
    intro error refused
    cases refused.encode?_eq
  obtain ⟨-, -, programmed, commutes⟩ :=
    protect_independent writable range (by decide : 7 < 2 ^ 64 - 1)
  obtain ⟨settings, after, encoded, -, ran, programs⟩ := programmed accepted
  refine ⟨⟨writable, by decide, by decide⟩, ⟨settings, after, ?_, ran, programs⟩, ?_⟩
  · cases encoded
    rfl
  · exact commutes block 9 (by decide) (.inl (by decide))

end HartM

end HartBoot
