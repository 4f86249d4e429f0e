import HartBoot.Proofs.Entries
import HartBoot.Proofs.Probing
import Mathlib.Data.List.TakeWhile

/-! # The survey of a register file

Detection is a function of the register file, and of its hardwired and writable bits alone. The
survey computes that function without any access, and detection ends with it whenever the
granularity fits a word. The counts of the survey are runs: entries and counters are counted up to
the first one that does not keep what is written.
-/

namespace HartBoot

namespace CsrFile

theorem counter_lt (index : Fin 29) : index.val + 3 < 32 := by omega

theorem laterCounter_lt (index : Fin 28) : index.val + 4 < 32 := by omega

/-- The programmable counters, in order. -/
def counters : List Csr :=
  (List.finRange 29).map fun index : Fin 29 => Csr.machineCounter ⟨index + 3, counter_lt index⟩

/-- Number of protection entries before the first one that does not keep the pattern. -/
def entryCount (file : CsrFile) : Nat :=
  (((List.finRange 64).map Csr.pmpaddr).takeWhile (file.keeps · file.pattern)).length

/-- Number of counters before the first one that cannot be set to one. -/
def counterCount (file : CsrFile) : Nat := (counters.takeWhile (file.keeps · 1)).length

/-- The optional registers of the hart, as features. -/
def optionalFeatures (file : CsrFile) : FeatureFlags :=
  let provided := fun (present : Bool) (feature : FeatureFlags) =>
    if present then feature else .empty
  provided (file.accepts .scounteren) FeatureFlags.scounteren
    ∪ provided (file.accepts .mcounteren) FeatureFlags.mcounteren
    ∪ provided (file.accepts .mcountinhibit) FeatureFlags.mcountinhibit
    ∪ provided (file.accepts .mcounteren && file.accepts .mcountinhibit
        && file.implements .scountovf) FeatureFlags.sscofpmf
    ∪ provided (file.implements .time) FeatureFlags.time

/-- The part of the survey that is about memory protection. -/
def surveyPmp (file : CsrFile) : FeatureRecord :=
  if file.pattern = 0 then {}
  else {
    pmpGran := (1 : Word) <<< (Word.trailingZeros file.pattern + 2)
    pmpAddrBits := BitVec.ofNat 32 (Word.bitLength file.pattern)
    pmpCount := BitVec.ofNat 32 file.entryCount }

/-- The survey of a register file. -/
def survey (file : CsrFile) : FeatureRecord :=
  { file.surveyPmp with
    counterCount := BitVec.ofNat 32 file.counterCount
    counterBits :=
      if file.counterCount = 0 then 0
      else BitVec.ofNat 32 ((file.retained? .mhpmcounter3 Word.ones).elim 0 Word.bitLength)
    features := file.optionalFeatures }

theorem counterCount_eq (file : CsrFile) :
    file.counterCount = if file.keeps .mhpmcounter3 1 then
      1 + (((List.finRange 28).map fun index : Fin 28 =>
        Csr.machineCounter ⟨index + 4, laterCounter_lt index⟩).takeWhile
          (file.keeps · 1)).length else 0 := by
  have first : Csr.machineCounter ⟨(0 : Fin 29) + 3, by omega⟩ = .mhpmcounter3 :=
    Csr.machineCounter_three
  rw [counterCount, counters, List.finRange_succ, List.map_cons, first, List.map_map,
    List.takeWhile_cons]
  split
  · rw [List.length_cons, Nat.add_comm]
    rfl
  · rfl

section

variable {touched : Csr → Prop} {before after : CsrFile}

theorem Evolves.keeps_eq (evolves : Evolves touched before after) (csr : Csr) (written : Word) :
    after.keeps csr written = before.keeps csr written := by
  rw [keeps, keeps, evolves.retained?_eq]

theorem Evolves.pattern_eq (evolves : Evolves touched before after) :
    after.pattern = before.pattern := by
  rw [pattern, pattern, evolves.accepts_eq, evolves.retained?_eq]

theorem Evolves.counterCount_eq (evolves : Evolves touched before after) :
    after.counterCount = before.counterCount := by
  simp only [CsrFile.counterCount, evolves.keeps_eq]

theorem Evolves.optionalFeatures_eq (evolves : Evolves touched before after) :
    after.optionalFeatures = before.optionalFeatures := by
  have implemented (csr : Csr) : after.implements csr = before.implements csr :=
    evolves.isSome_eq csr
  simp only [optionalFeatures, implemented, evolves.accepts_eq]

/-- The survey depends on nothing that writes can change. -/
theorem Evolves.survey_eq (evolves : Evolves touched before after) :
    after.survey = before.survey := by
  have entries : after.entryCount = before.entryCount := by
    simp only [entryCount, evolves.keeps_eq, evolves.pattern_eq]
  have pmp : after.surveyPmp = before.surveyPmp := by
    rw [surveyPmp, surveyPmp, entries, evolves.pattern_eq]
  rw [survey, survey, pmp, evolves.counterCount_eq, evolves.optionalFeatures_eq,
    evolves.retained?_eq]

end

end CsrFile

namespace HartM

variable {file : CsrFile}

theorem gives_detectPmp (file : CsrFile)
    (fits : file.pattern = 0 ∨ Word.trailingZeros file.pattern < 62) :
    Gives [] (detectPmp {}) file file.surveyPmp file.probed := by
  refine (gives_probeAddress file).bind ?_
  unfold CsrFile.surveyPmp
  split
  next missing => exact .pure _ _
  next present =>
    have narrow : Word.trailingZeros file.pattern + 2 < Word.width := by
      unfold Word.width
      have low := fits.resolve_left present
      omega
    have granularity : Word.shiftLeft? 1 (Word.trailingZeros file.pattern + 2) =
        .ok ((1 : Word) <<< (Word.trailingZeros file.pattern + 2)) := if_pos narrow
    refine (gives_checked granularity _).bind ?_
    have counted : Gives [] (leadingRun (holds · file.pattern) ((List.finRange 64).map Csr.pmpaddr))
        file.probed file.entryCount file.probed := by
      apply gives_leadingRun
      intro csr member
      obtain ⟨entry, -, rfl⟩ := List.mem_map.mp member
      rw [← file.evolves_probed.keeps_eq]
      exact gives_holds _ (Csr.isReadOnly_pmpaddr entry) _
    exact counted.map fun count => ({
      pmpGran := (1 : Word) <<< (Word.trailingZeros file.pattern + 2)
      pmpAddrBits := BitVec.ofNat 32 (Word.bitLength file.pattern)
      pmpCount := BitVec.ofNat 32 count } : FeatureRecord)

theorem gives_detectCounters (file : CsrFile) (record : FeatureRecord)
    (blank : record.counterCount = 0 ∧ record.counterBits = 0) :
    Gives [] (detectCounters record) file
      { record with
        counterCount := BitVec.ofNat 32 file.counterCount
        counterBits :=
          if file.counterCount = 0 then 0
          else BitVec.ofNat 32 ((file.retained? .mhpmcounter3 Word.ones).elim 0 Word.bitLength) }
      file := by
  refine (gives_holds file (by decide) 1).bind ?_
  rw [file.counterCount_eq]
  cases first : file.keeps .mhpmcounter3 1 with
  | false =>
    obtain ⟨features, pmpCount, pmpAddrBits, pmpGran, count, bits⟩ := record
    obtain ⟨rfl, rfl⟩ : count = 0 ∧ bits = 0 := blank
    exact .pure _ _
  | true =>
    refine (gives_writableBits? file .mhpmcounter3).bind ?_
    simp only [if_true, Nat.add_eq_zero_iff, one_ne_zero, false_and, if_false]
    refine Gives.map _ (gives_leadingRun _ ?_)
    intro csr member
    obtain ⟨index, -, rfl⟩ := List.mem_map.mp member
    exact gives_holds _ (Csr.isReadOnly_machineCounter _) _

private theorem isOk_readReport (file : CsrFile) (csr : Csr) :
    (readReport file csr).isOk = file.implements csr := by
  unfold readReport CsrFile.value? CsrFile.implements
  cases file[csr]? <;> rfl

/-- Counters can be both opened and stopped exactly when both registers were found. -/
private theorem has_both (record : FeatureRecord) (blank : record.features = .empty)
    (readable opened stopped : Bool) :
    (addFeature (addFeature (addFeature record readable FeatureFlags.scounteren) opened
      FeatureFlags.mcounteren) stopped FeatureFlags.mcountinhibit).has
        (FeatureFlags.mcounteren ∪ FeatureFlags.mcountinhibit) = (opened && stopped) := by
  unfold FeatureRecord.has
  cases readable <;> cases opened <;> cases stopped <;> simp only [addFeature, if_true,
    Bool.false_eq_true, if_false, blank] <;> rfl

private theorem addFeature_features (record : FeatureRecord) (present : Bool)
    (feature : FeatureFlags) : addFeature record present feature =
      { record with features := record.features ∪ if present then feature else .empty } := by
  cases present with
  | true => rfl
  | false => simp only [addFeature, Bool.false_eq_true, if_false, FlagSet.union_empty]

theorem gives_detectOptional (file : CsrFile) (record : FeatureRecord)
    (blank : record.features = .empty) :
    Gives [] (detectOptional record) file { record with features := file.optionalFeatures } file := by
  refine (gives_isControllable file .scounteren).bind ?_
  refine (gives_isControllable file .mcounteren).bind ?_
  refine (gives_isControllable file .mcountinhibit).bind ?_
  dsimp only
  rw [has_both record blank]
  have clock (found : FeatureRecord) := (gives_probeRead file .time).map fun report =>
    addFeature found report.isOk FeatureFlags.time
  rw [isOk_readReport] at clock
  unfold CsrFile.optionalFeatures
  cases counted : file.accepts .mcounteren && file.accepts .mcountinhibit with
  | false =>
    rw [if_neg (by decide)]
    refine (Gives.pure _ file).bind ((clock _).congr ?_)
    simp [addFeature_features, blank]
  | true =>
    rw [if_pos rfl]
    refine (gives_probeRead file .scountovf).bind ?_
    rw [isOk_readReport]
    refine (Gives.pure _ file).bind ((clock _).congr ?_)
    simp [addFeature_features, blank]

/-- Detection ends with the survey, unless the granularity does not fit a word. -/
theorem gives_detect (file : CsrFile)
    (fits : file.pattern = 0 ∨ Word.trailingZeros file.pattern < 62) :
    Gives [] detect file file.survey file.probed := by
  have bare : file.surveyPmp.counterCount = 0 ∧ file.surveyPmp.counterBits = 0 ∧
      file.surveyPmp.features = .empty := by
    unfold CsrFile.surveyPmp
    split <;> exact ⟨rfl, rfl, rfl⟩
  refine (gives_detectPmp file fits).bind ?_
  refine (gives_detectCounters file.probed file.surveyPmp ⟨bare.1, bare.2.1⟩).bind ?_
  have probed := file.evolves_probed
  rw [probed.counterCount_eq, probed.retained?_eq]
  refine (gives_detectOptional file.probed _ ?_).congr ?_
  · exact bare.2.2
  · rw [probed.optionalFeatures_eq]
    rfl

end HartM

namespace CsrFile

variable {bits : Word} {file : CsrFile} {count : Nat}

theorem HasPmp.retained?_address (equipped : file.HasPmp bits) (entry : Fin 64) (written : Word) :
    file.retained? (Csr.pmpaddr entry) written = some (written &&& bits) := by
  obtain ⟨value, found, clear⟩ := equipped.addresses entry
  simp only [retained?, found, Option.bind_some, Bool.false_eq_true, if_false, Register.settle,
    Register.hardwired, clear, BitVec.ofNat_eq_ofNat, BitVec.zero_or]

theorem HasPmp.pattern_eq (equipped : file.HasPmp bits) :
    file.pattern = HartM.addressPattern &&& bits := by
  have configurable : file.accepts .pmpcfg0 = true := equipped.accepts_config 0
  have retained := equipped.retained?_address 0 HartM.addressPattern
  rw [Csr.pmpaddr_zero] at retained
  rw [pattern, if_pos configurable, retained, Option.getD_some]

/-- All entries keep the pattern, so all of them are counted. -/
theorem HasPmp.entryCount_eq (equipped : file.HasPmp bits) : file.entryCount = 64 := by
  have kept (entry : Fin 64) : file.keeps (Csr.pmpaddr entry) file.pattern = true := by
    rw [keeps, equipped.retained?_address, equipped.pattern_eq, BitVec.and_assoc, BitVec.and_self]
    exact beq_self_eq_true _
  have all : ((List.finRange 64).map Csr.pmpaddr).takeWhile (file.keeps · file.pattern) =
      (List.finRange 64).map Csr.pmpaddr := by
    rw [List.takeWhile_eq_self_iff]
    intro csr member
    obtain ⟨entry, -, rfl⟩ := List.mem_map.mp member
    exact kept entry
  rw [entryCount, all, List.length_map, List.length_finRange]

private theorem trailingZeros_lowMask (positive : 0 < count) (inside : count < 64) :
    Word.trailingZeros (Word.lowMask count) = 0 := by
  apply Word.trailingZeros_eq
  · rw [Word.getLsbD_lowMask inside, decide_eq_true positive]
  · exact fun lower below => absurd below (Nat.not_lt_zero lower)

private theorem bitLength_lowMask (positive : 0 < count) (inside : count < 64) :
    Word.bitLength (Word.lowMask count) = count := by
  have nonzero : Word.lowMask count ≠ 0 := by
    intro empty
    have bit := Word.getLsbD_lowMask inside 0
    rw [empty, decide_eq_true positive] at bit
    simp at bit
  obtain ⟨high, length, greatest⟩ := Word.isGreatest_bitLength nonzero
  have same : high = count - 1 := by
    apply greatest.unique
    refine ⟨?_, fun position set => ?_⟩
    · exact (Word.getLsbD_lowMask inside _).trans (decide_eq_true (by omega))
    · have below := of_decide_eq_true ((Word.getLsbD_lowMask inside position).symm.trans set)
      omega
  omega

/-- The survey of a hart whose entries hold the lowest bits of an address. -/
theorem HasPmp.survey_eq (equipped : file.HasPmp bits) (positive : 0 < count) (inside : count < 64)
    (held : HartM.addressPattern &&& bits = Word.lowMask count) :
    Word.trailingZeros file.pattern < 62 ∧ file.survey.pmpCount = 64 ∧ file.survey.pmpGran = 4 ∧
      file.survey.pmpAddrBits.toNat = count := by
  have low := trailingZeros_lowMask positive inside
  have length := bitLength_lowMask positive inside
  have pattern : file.pattern = Word.lowMask count := equipped.pattern_eq.trans held
  have present : file.pattern ≠ 0 := by
    intro missing
    rw [← pattern, missing] at length
    have none : Word.bitLength 0 = 0 := by decide +kernel
    omega
  have survey : file.surveyPmp = {
      pmpGran := (1 : Word) <<< (Word.trailingZeros file.pattern + 2)
      pmpAddrBits := BitVec.ofNat 32 (Word.bitLength file.pattern)
      pmpCount := BitVec.ofNat 32 file.entryCount } := by
    rw [surveyPmp, if_neg present]
  rw [pattern, low, length, equipped.entryCount_eq] at survey
  refine ⟨by rw [pattern, low]; decide, ?_⟩
  simp only [CsrFile.survey, survey]
  refine ⟨rfl, rfl, ?_⟩
  rw [BitVec.toNat_ofNat]
  omega

end CsrFile

end HartBoot
