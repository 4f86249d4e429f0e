import HartBoot.Proofs.Accounting
import HartBoot.Proofs.Enforcement
import HartBoot.Proofs.Independence

/-! # Configuring once more changes nothing

The plan for a domain depends on the feature record alone, so the second run programs the same entries
with the same settings. It starts from what the first run left, and reads back registers that may have
kept only some of what was written to them. Of two settings of one entry the later decides, in any
register and in each of its bits, and the settings of a plan are for different entries. Every setting
can therefore be moved next to its repetition, and is absorbed there.
-/

namespace HartBoot

/-- Of two octets for one place, the later decides. -/
theorem Register.putOctet_putOctet (register : Register) (entry : Fin 64) (first second : Byte) :
    (register.putOctet entry first).putOctet entry second = register.putOctet entry second := by
  have same : ((register.putOctet entry first).putOctet entry second).value =
      (register.putOctet entry second).value := by
    apply BitVec.eq_of_getLsbD_eq
    intro position inside
    simp only [getLsbD_putOctet _ _ _ inside, writable_putOctet]
    split
    · rfl
    · rfl
  exact congrArg (fun value => { register with value }) same

/-- Of two settings of one entry, the later decides what becomes of any register. -/
theorem PmpSetting.revise_revise {first second : PmpSetting} (same : first.entry = second.entry)
    (csr : Csr) (register : Register) :
    second.revise csr (first.revise csr register) = second.revise csr register := by
  by_cases named : csr ∈ registers second.entry
  · cases locked : register.readOnly with
    | true => simp only [revise, locked, if_true]
    | false =>
      simp only [registers, List.mem_cons, List.not_mem_nil, or_false] at named
      rcases named with rfl | rfl
      · simp only [revise, same, if_true, locked, Register.readOnly_store, Bool.false_eq_true,
          if_false]
        exact register.store_store _ _
      · have early := revise_configRegister first
        rw [same] at early
        simp only [revise_configRegister second, early, Register.readOnly_putOctet, locked,
          Bool.false_eq_true, if_false]
        exact register.putOctet_putOctet _ _ _
  · rw [revise_of_not_mem named, revise_of_not_mem named, revise_of_not_mem (same ▸ named)]

namespace CsrFile

variable {settings : List PmpSetting}

theorem program_program (file : CsrFile) {first second : PmpSetting}
    (same : first.entry = second.entry) :
    (file.program first).program second = file.program second := by
  apply Std.ExtTreeMap.ext_getElem?
  intro csr
  simp only [getElem?_program, Option.map_map]
  congr 1
  funext register
  exact PmpSetting.revise_revise same csr register

/-- Settings of different entries can be programmed again without effect. -/
theorem programAll_programAll (file : CsrFile) (distinct : (settings.map PmpSetting.entry).Nodup) :
    (file.programAll settings).programAll settings = file.programAll settings := by
  induction settings generalizing file with
  | nil => rfl
  | cons setting rest ih =>
    have moved (start : CsrFile) :
        (start.program setting).programAll rest = (start.programAll rest).program setting := by
      have last := start.programAll_append rest [setting]
      exact (start.programAll_perm distinct (List.perm_append_singleton setting rest).symm).trans last
    have others := (List.nodup_cons.mp (List.map_cons ▸ distinct)).2
    calc (((file.program setting).programAll rest).program setting).programAll rest
      _ = (((file.program setting).program setting).programAll rest).programAll rest := by
        rw [← moved (file.program setting)]
      _ = ((file.program setting).programAll rest).programAll rest := by
        rw [file.program_program rfl]
      _ = (file.program setting).programAll rest := ih (file.program setting) others

end CsrFile

namespace BootM

/-- On a hart whose protection entries accept writes, whatever bits of them it keeps, configuration
for the same record and domain a second time gives the same report, and leaves every register as the
first time left it. -/
theorem configure_idempotent (record : FeatureRecord) (domain : Domain) (machine : Machine)
    (writable : machine.hart.csrs.AcceptsPmp)
    (numbered : ∃ id, machine.hart.csrs.value? .mhartid = some id) :
    ∃ report once twice, configure record domain machine = .ok report once ∧
      configure record domain once = .ok report twice ∧ twice.hart.csrs = once.hart.csrs := by
  obtain ⟨id, numbered⟩ := numbered
  obtain ⟨once, first, left, -⟩ :=
    gives_configure_allot writable numbered record domain machine rfl
  have evolves := machine.hart.csrs.evolves_programAll (plan record 0 domain.regions)
  rw [← left] at evolves
  have still := writable.evolve evolves
  have known : once.hart.csrs.value? .mhartid = some id := by
    rw [left, CsrFile.value?, CsrFile.getElem?_programAll _ _ (.inr (by decide))]
    exact numbered
  obtain ⟨twice, second, again, -⟩ := gives_configure_allot still known record domain once rfl
  refine ⟨_, once, twice, first, second, ?_⟩
  rw [again, left]
  exact machine.hart.csrs.programAll_programAll (nodup_entries_plan record 0 domain.regions)

/-- The permissions and the locks of the first entries are hardwired, and so are the outer bits of the
second address. Three entries go to a range and a block, and the second range finds too few. -/
theorem configure_idempotent_hardwired :
    let hart := ((Hart.numbered.withPmp (Word.lowMask 54)).implement (.pmpcfg 0) 0x0707070707070707
      0x1818181818181818).implement (.pmpaddr 1) 0xffff00000000ffff 0x0000ffffffff0000
    let machine : Machine := ⟨hart, .blank, {}⟩
    let record : FeatureRecord := { pmpCount := 4, pmpGran := 4, pmpAddrBits := 54 }
    let domain : Domain := { name := "hardwired", bootHart := 0, regions := [
      { base := 0x80001000, extent := .tor 0x1800, flags := ⟨0b1011⟩ },
      { base := 0x80000000, extent := .napot 12, flags := ⟨0b0101⟩ },
      { base := 0x80004000, extent := .tor 0x1000, flags := ⟨0b0011⟩ }] }
    (machine.hart.csrs.AcceptsPmp ∧ ∃ id, machine.hart.csrs.value? .mhartid = some id) ∧
    ∃ once twice,
      configure record domain machine = .ok { slots := 3, configured := 2, skipped := 1 } once ∧
      configure record domain once = .ok { slots := 3, configured := 2, skipped := 1 } twice ∧
      twice.hart.csrs = once.hart.csrs := by
  intro hart machine record domain
  have equipped := Hart.hasPmp_withPmp Hart.numbered (Word.lowMask 54)
  have writable : machine.hart.csrs.AcceptsPmp :=
    Hart.acceptsPmp_implement (Hart.acceptsPmp_implement equipped.acceptsPmp _ _ _) _ _ _
  have named : machine.hart.csrs.value? .mhartid = some 0 := by
    rw [← Hart.value?_numbered_withPmp (Word.lowMask 54)]
    simp only [CsrFile.value?, machine, hart, Hart.implement, CsrFile.getElem?_insert_eq]
    rw [if_neg (by decide), if_neg (by decide)]
  obtain ⟨report, once, twice, first, second, same⟩ :=
    configure_idempotent record domain machine writable ⟨0, named⟩
  have shown : report = { slots := 3, configured := 2, skipped := 1 } :=
    (report_of_configure writable named first).trans (by decide +kernel)
  subst shown
  exact ⟨⟨writable, 0, named⟩, once, twice, first, second, same⟩

end BootM

end HartBoot
