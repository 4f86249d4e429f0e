import HartBoot.Proofs.Caution
import HartBoot.Proofs.Detection

/-! # What detection leaves behind

Detection ends on every register file, unless the first address register holds one of the two
highest bits of a word and none below them: the granularity that this stands for does not fit a
word. Where detection ends, it has put back every register but the two of the first protection
entry, and what it leaves in these is told by their hardwired and writable bits.
-/

namespace HartBoot

namespace Word

/-- A word has at least as many zeros at the bottom as the exponent of a power of two that divides
it. -/
theorem le_trailingZeros_iff {word : Word} (nonzero : word ≠ 0) (count : Nat) :
    count ≤ trailingZeros word ↔ 2 ^ count ∣ word.toNat := by
  rw [Nat.dvd_iff_mod_eq_zero]
  constructor
  · intro enough
    apply Nat.eq_of_testBit_eq
    intro position
    rw [Nat.testBit_mod_two_pow, Nat.zero_testBit]
    by_cases low : position < count
    · have clear : word.getLsbD position = false := getLsbD_of_lt_trailingZeros (by omega)
      rw [← BitVec.testBit_toNat] at clear
      simp [clear]
    · simp [low]
  · intro divides
    by_contra fewer
    have set : word.toNat.testBit (trailingZeros word) = true := getLsbD_trailingZeros nonzero
    have bit := congrArg (·.testBit (trailingZeros word)) divides
    simp [Nat.testBit_mod_two_pow, set, not_le.mp fewer] at bit

end Word

namespace CsrFile

/-- The two registers of the first entry after the address pattern was tried. -/
theorem getElem?_probed_config (file : CsrFile) :
    file.probed[Csr.pmpcfg0]? = (file[Csr.pmpcfg0]?).map fun register =>
      if register.readOnly then register else register.store 0 := by
  have apart : Csr.pmpcfg0 ≠ .pmpaddr0 := by decide
  rw [← getElem?_write]
  unfold probed
  split
  next => rw [getElem?_write_of_ne _ apart]
  next refused => rw [write_of_refused (Bool.not_eq_true _ ▸ refused)]

theorem getElem?_probed_address (file : CsrFile) :
    file.probed[Csr.pmpaddr0]? = (file[Csr.pmpaddr0]?).map fun register =>
      if file.accepts .pmpcfg0 = true ∧ register.readOnly = false then
        register.store HartM.addressPattern
      else register := by
  have apart : Csr.pmpaddr0 ≠ .pmpcfg0 := by decide
  unfold probed
  split
  next configurable =>
    rw [getElem?_write, getElem?_write_of_ne _ apart]
    cases file[Csr.pmpaddr0]? with
    | none => rfl
    | some register => cases locked : register.readOnly <;> simp [configurable, locked]
  next refused => simp [refused]

/-- One file is another with the first protection entry tried and everything else put back. -/
structure Restored (before after : CsrFile) : Prop where
  /-- No register comes or goes, and none changes its writable bits or its lock. -/
  kinds : ∀ csr : Csr,
    (after[csr]?).map (fun register : Register => (register.writable, register.readOnly)) =
      (before[csr]?).map fun register => (register.writable, register.readOnly)
  others : ∀ csr : Csr, csr ≠ .pmpcfg0 → csr ≠ .pmpaddr0 → after[csr]? = before[csr]?
  /-- The first configuration register keeps its hardwired bits alone. -/
  config : after.value? .pmpcfg0 = (before[Csr.pmpcfg0]?).map fun register =>
    if register.readOnly then register.value else register.hardwired
  /-- The first address register has its writable bits from the pattern. -/
  address : after.value? .pmpaddr0 = (before[Csr.pmpaddr0]?).map fun register =>
    if before.accepts .pmpcfg0 = true ∧ register.readOnly = false then
      register.hardwired ||| (HartM.addressPattern &&& register.writable)
    else register.value

theorem restored_probed (file : CsrFile) : file.Restored file.probed where
  kinds csr := by
    have related := file.evolves_probed.rewrites csr
    revert related
    generalize file[csr]? = old
    generalize file.probed[csr]? = new
    intro related
    cases related with
    | none => rfl
    | some rewritten =>
      simp only [Option.map_some, rewritten.writable_eq, rewritten.readOnly_eq]
  others csr config address := file.evolves_probed.frame csr (not_or.mpr ⟨config, address⟩)
  config := by
    have cleared (register : Register) : (register.store 0).value = register.hardwired := by
      rw [Register.store, Register.settle, BitVec.ofNat_eq_ofNat, BitVec.zero_and, BitVec.or_zero]
    rw [value?, getElem?_probed_config, Option.map_map]
    congr 1
    funext register
    dsimp only [Function.comp_apply]
    split
    · rfl
    · exact cleared register
  address := by
    rw [value?, getElem?_probed_address, Option.map_map]
    congr 1
    funext register
    dsimp only [Function.comp_apply]
    split <;> rfl

/-- The granularity of a pattern fits a word unless the pattern has none but the highest bits. -/
theorem fits_iff (file : CsrFile) :
    (file.pattern = 0 ∨ Word.trailingZeros file.pattern < 62) ↔
      ¬(file.accepts .pmpcfg0 = true ∧ ∃ kept,
        file.retained? .pmpaddr0 HartM.addressPattern = some kept ∧ kept ≠ 0 ∧
          2 ^ 62 ∣ kept.toNat) := by
  unfold pattern
  split
  next configurable =>
    cases held : file.retained? .pmpaddr0 HartM.addressPattern with
    | none => simp
    | some kept =>
      by_cases empty : kept = 0
      · simp [empty]
      · have coarse := Word.le_trailingZeros_iff empty 62
        simp only [Option.getD_some, empty, false_or, configurable, Option.some.injEq,
          exists_eq_left', ne_eq, not_false_eq_true, true_and, ← coarse, not_le]
  next refused => simp [refused]

end CsrFile

namespace HartM

/-- Detection stops where the granularity does not fit a word. -/
theorem detect_of_not_fits {hart : Hart} (steady : hart.outages = [])
    (tooCoarse : ¬(hart.csrs.pattern = 0 ∨ Word.trailingZeros hart.csrs.pattern < 62)) :
    ∃ final, detect hart = .error (.overflow .shiftLeft) final := by
  obtain ⟨present, wide⟩ := not_or.mp tooCoarse
  obtain ⟨paused, ran, -, -⟩ := gives_probeAddress hart.csrs hart rfl steady
  have overflows : Word.shiftLeft? 1 (Word.trailingZeros hart.csrs.pattern + 2) =
      .error .shiftLeft := if_neg (by unfold Word.width; omega)
  refine ⟨paused, ?_⟩
  have stopped : detectPmp {} hart = .error (.overflow .shiftLeft) paused := by
    rw [detectPmp, bind_ok ran]
    simp only [if_neg present, overflows]
    rfl
  simp only [detect, Bind.bind, EStateM.bind, stopped]

/-- Detection ends exactly where the granularity fits a word. -/
theorem fits_of_detect {hart after : Hart} {record : FeatureRecord} (steady : hart.outages = [])
    (detected : detect hart = .ok record after) :
    hart.csrs.pattern = 0 ∨ Word.trailingZeros hart.csrs.pattern < 62 := by
  by_contra tooCoarse
  obtain ⟨final, stopped⟩ := detect_of_not_fits steady tooCoarse
  rw [detected] at stopped
  cases stopped

/-- Where detection ends, all registers but those of the first entry are as before, and no register
was exchanged without having accepted a guarded write right before. -/
theorem detect_restores (hart : Hart) (steady : hart.outages = []) {record : FeatureRecord}
    {after : Hart} (detected : detect hart = .ok record after) :
    hart.csrs.Restored after.csrs ∧ ∃ accesses,
      after.trace.toList = hart.trace.toList ++ accesses ∧ Access.Guarded accesses := by
  have final : finalHart detect hart = after := by
    rw [finalHart, detected]
  have history := (cautious_detect hart).1.history
  rw [final] at history
  obtain ⟨ended, ran, registers, -⟩ :=
    gives_detect hart.csrs (fits_of_detect steady detected) hart rfl steady
  rw [detected] at ran
  obtain ⟨-, rfl⟩ := EStateM.Result.ok.inj ran
  exact ⟨registers ▸ hart.csrs.restored_probed, history⟩

theorem detect_restores_mixed :
    Hart.mixed.outages = [] ∧ ∃ record after, detect Hart.mixed = .ok record after ∧
      Hart.mixed.csrs.Restored after.csrs ∧ ∃ accesses,
        after.trace.toList = Hart.mixed.trace.toList ++ accesses ∧ Access.Guarded accesses := by
  have aligned : Word.trailingZeros Hart.mixed.csrs.pattern < 62 := by decide +kernel
  obtain ⟨after, ran, -⟩ := gives_detect Hart.mixed.csrs (.inr aligned) Hart.mixed rfl rfl
  exact ⟨rfl, _, after, ran, detect_restores Hart.mixed rfl ran⟩

end HartM

end HartBoot
