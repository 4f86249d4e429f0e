import HartBoot.Hart.Build
import HartBoot.Proofs.Survey

/-! # A detected record describes its hart

What a feature record should say about a hart is put in terms of the hardwired and the writable
bits of its registers: the lowest and the highest bit that an address can hold, the longest runs of
entries and of counters that keep what is written to them, and which optional registers are there.
Detection on any register file ends with such a record, so nothing that earlier software left in
writable bits has a part in it.
-/

namespace HartBoot

/-- A record says what the registers of a hart are able to do. -/
structure FeatureRecord.Describes (record : FeatureRecord) (file : CsrFile) : Prop where
  unprotected : file.pattern = 0 →
    record.pmpCount = 0 ∧ record.pmpGran = 0 ∧ record.pmpAddrBits = 0
  granularity : file.pattern ≠ 0 →
    ∃ low, IsLeast {position | file.pattern.getLsbD position = true} low ∧
      record.pmpGran.toNat = 2 ^ (low + 2)
  addressBits : file.pattern ≠ 0 →
    ∃ high, IsGreatest {position | file.pattern.getLsbD position = true} high ∧
      record.pmpAddrBits.toNat = high + 1
  entries : file.pattern ≠ 0 →
    IsGreatest {count | count ≤ 64 ∧
      ∀ entry : Fin 64, entry.val < count → file.keeps (Csr.pmpaddr entry) file.pattern = true}
      record.pmpCount.toNat
  /-- The first entry keeps the pattern that it left behind. -/
  entries_pos : file.pattern ≠ 0 → 0 < record.pmpCount.toNat
  counters :
    IsGreatest {count | count ≤ 29 ∧ ∀ index : Fin 29, index.val < count →
      file.keeps (Csr.machineCounter ⟨index + 3, by omega⟩) 1 = true} record.counterCount.toNat
  uncounted : record.counterCount = 0 → record.counterBits = 0
  counterBits : record.counterCount ≠ 0 →
    ∃ register high, file[Csr.mhpmcounter3]? = some register ∧
      IsGreatest {position |
        (register.hardwired ||| register.writable).getLsbD position = true} high ∧
      record.counterBits.toNat = high + 1
  scounteren : record.has FeatureFlags.scounteren = file.accepts .scounteren
  mcounteren : record.has FeatureFlags.mcounteren = file.accepts .mcounteren
  mcountinhibit : record.has FeatureFlags.mcountinhibit = file.accepts .mcountinhibit
  /-- Counter overflow counts only together with both ways of controlling counters. -/
  sscofpmf : record.has FeatureFlags.sscofpmf =
    (file.accepts .mcounteren && file.accepts .mcountinhibit && file.implements .scountovf)
  time : record.has FeatureFlags.time = file.implements .time
  named : record.features.bits &&& ~~~FeatureFlags.family.known = 0

/-- A list is passed through up to its first failure. -/
private theorem takeWhile_run {α : Type} (passes : α → Bool) (items : List α) :
    (∀ position (inside : position < items.length),
      position < (items.takeWhile passes).length → passes items[position] = true) ∧
    ∀ inside : (items.takeWhile passes).length < items.length,
      passes items[(items.takeWhile passes).length] = false := by
  induction items with
  | nil => exact ⟨fun _ inside => absurd inside (Nat.not_lt_zero _), fun inside => absurd inside (by simp)⟩
  | cons item rest ih =>
    cases passed : passes item with
    | false => simp [passed]
    | true =>
      simp only [List.takeWhile_cons, passed, if_true, List.length_cons]
      refine ⟨?_, fun inside => ?_⟩
      · intro position inside reached
        cases position with
        | zero => exact passed
        | succ position => exact ih.1 position (by omega) (by omega)
      · exact ih.2 (by omega)

/-- The length of the leading run is the largest number of members that all pass. -/
private theorem isGreatest_run {α : Type} {size : Nat} (passes : α → Bool) (member : Fin size → α) :
    IsGreatest {count | count ≤ size ∧
      ∀ index : Fin size, index.val < count → passes (member index) = true}
      (((List.finRange size).map member).takeWhile passes).length := by
  have run := takeWhile_run passes ((List.finRange size).map member)
  have bound := (List.takeWhile_sublist passes (l := (List.finRange size).map member)).length_le
  simp only [List.length_map, List.length_finRange] at run bound
  refine ⟨⟨bound, fun index reached => ?_⟩, fun count ⟨small, all⟩ => ?_⟩
  · simpa using run.1 index index.isLt reached
  · by_contra longer
    have inside := (not_le.mp longer).trans_le small
    have failed := run.2 inside
    have passed := all ⟨_, inside⟩ (not_le.mp longer)
    simp_all

namespace CsrFile

/-- The first entry keeps the pattern, because it has been tried on it before. -/
theorem keeps_pattern {file : CsrFile} (present : file.pattern ≠ 0) :
    file.keeps (Csr.pmpaddr 0) file.pattern = true := by
  unfold pattern at present ⊢
  split at present
  next configurable =>
    cases held : file.retained? .pmpaddr0 HartM.addressPattern with
    | none => simp [held] at present
    | some kept =>
      rw [if_pos configurable, Option.getD_some, Csr.pmpaddr_zero, keeps_iff]
      unfold retained? at held
      obtain ⟨register, found, unlocked⟩ := Option.bind_eq_some_iff.mp held
      simp only [Option.ite_none_left_eq_some, Option.some.injEq, Bool.not_eq_true] at unlocked
      obtain ⟨unlocked, rfl⟩ := unlocked
      exact ⟨register, found, unlocked, register.settle_settle _⟩
  next => exact absurd rfl present

private theorem toNat_ofNat_of_le {count : Nat} (small : count ≤ 64) :
    (BitVec.ofNat 32 count).toNat = count := by
  rw [BitVec.toNat_ofNat]
  omega

/-- A counter that can be set to one has a bit of its own. -/
theorem isGreatest_counterBits {file : CsrFile} (counted : file.counterCount ≠ 0) :
    ∃ register high, file[Csr.mhpmcounter3]? = some register ∧
      IsGreatest {position |
        (register.hardwired ||| register.writable).getLsbD position = true} high ∧
      (file.retained? .mhpmcounter3 Word.ones).elim 0 Word.bitLength = high + 1 := by
  rw [counterCount_eq] at counted
  split at counted
  next kept =>
    obtain ⟨register, found, unlocked, settled⟩ := keeps_iff.mp kept
    have full : register.settle Word.ones = register.hardwired ||| register.writable := by
      rw [Register.settle, Word.ones, BitVec.allOnes_and]
    have nonzero : register.hardwired ||| register.writable ≠ 0 := by
      intro empty
      have bit := congrArg (fun word : Word => word.getLsbD 0) empty
      have one := congrArg (fun word : Word => word.getLsbD 0) settled
      simp only [Register.settle, BitVec.getLsbD_or, BitVec.getLsbD_and] at bit one
      cases wired : register.hardwired.getLsbD 0 <;> cases writable : register.writable.getLsbD 0 <;>
        simp_all
    obtain ⟨high, length, greatest⟩ := Word.isGreatest_bitLength nonzero
    refine ⟨register, high, found, greatest, ?_⟩
    simp only [retained?, found, Option.bind_some, unlocked, Bool.false_eq_true, if_false, full,
      Option.elim_some, length]
  next => exact absurd rfl counted

theorem isGreatest_entryCount (file : CsrFile) :
    IsGreatest {count | count ≤ 64 ∧
      ∀ entry : Fin 64, entry.val < count → file.keeps (Csr.pmpaddr entry) file.pattern = true}
      file.entryCount :=
  isGreatest_run (file.keeps · file.pattern) Csr.pmpaddr

theorem isGreatest_counterCount (file : CsrFile) :
    IsGreatest {count | count ≤ 29 ∧ ∀ index : Fin 29, index.val < count →
      file.keeps (Csr.machineCounter ⟨index + 3, by omega⟩) 1 = true} file.counterCount :=
  isGreatest_run (file.keeps · 1) fun index : Fin 29 => Csr.machineCounter ⟨index + 3, by omega⟩

private theorem toNat_ofNat_entryCount (file : CsrFile) :
    (BitVec.ofNat 32 file.entryCount).toNat = file.entryCount :=
  toNat_ofNat_of_le file.isGreatest_entryCount.1.1

private theorem toNat_ofNat_counterCount (file : CsrFile) :
    (BitVec.ofNat 32 file.counterCount).toNat = file.counterCount :=
  toNat_ofNat_of_le (file.isGreatest_counterCount.1.1.trans (by decide))

/-- The optional features are exactly those of the registers that are there. -/
private theorem contains_optionalFeatures (file : CsrFile) :
    file.optionalFeatures.contains FeatureFlags.scounteren = file.accepts .scounteren ∧
      file.optionalFeatures.contains FeatureFlags.mcounteren = file.accepts .mcounteren ∧
      file.optionalFeatures.contains FeatureFlags.mcountinhibit = file.accepts .mcountinhibit ∧
      file.optionalFeatures.contains FeatureFlags.sscofpmf = (file.accepts .mcounteren &&
        file.accepts .mcountinhibit && file.implements .scountovf) ∧
      file.optionalFeatures.contains FeatureFlags.time = file.implements .time ∧
      file.optionalFeatures.bits &&& ~~~FeatureFlags.family.known = 0 := by
  unfold optionalFeatures
  cases file.accepts .scounteren <;> cases file.accepts .mcounteren <;>
    cases file.accepts .mcountinhibit <;> cases file.implements .scountovf <;>
    cases file.implements .time <;> decide

/-- The survey describes the file that it is taken of. -/
theorem describes_survey (file : CsrFile)
    (narrow : file.pattern = 0 ∨ Word.trailingZeros file.pattern < 62) :
    file.survey.Describes file where
  unprotected missing := by
    simp only [survey, surveyPmp, missing, if_true, and_self]
  granularity present := by
    refine ⟨_, Word.isLeast_trailingZeros present, ?_⟩
    have low := narrow.resolve_left present
    simp only [survey, surveyPmp, present, if_false]
    exact Word.toNat_shiftLeft_one (by omega)
  addressBits present := by
    obtain ⟨high, length, greatest⟩ := Word.isGreatest_bitLength present
    refine ⟨high, greatest, ?_⟩
    simp only [survey, surveyPmp, present, if_false]
    rw [toNat_ofNat_of_le (Word.bitLength_le _), length]
  entries present := by
    simp only [survey, surveyPmp, present, if_false, toNat_ofNat_entryCount]
    exact file.isGreatest_entryCount
  entries_pos present := by
    simp only [survey, surveyPmp, present, if_false, toNat_ofNat_entryCount]
    apply Nat.lt_of_lt_of_le Nat.zero_lt_one
    refine file.isGreatest_entryCount.2 ⟨by decide, fun entry first => ?_⟩
    obtain rfl : entry = 0 := Fin.ext (Nat.lt_one_iff.mp first)
    exact keeps_pattern present
  counters := by
    simp only [survey, toNat_ofNat_counterCount]
    exact file.isGreatest_counterCount
  uncounted none := by
    have zero : file.counterCount = 0 := by
      rw [← toNat_ofNat_counterCount]
      exact congrArg BitVec.toNat none
    simp only [survey, zero, if_true]
  counterBits detected := by
    have counted : file.counterCount ≠ 0 := by
      intro zero
      exact detected (congrArg (BitVec.ofNat 32) zero)
    obtain ⟨register, high, found, greatest, length⟩ := isGreatest_counterBits counted
    refine ⟨register, high, found, greatest, ?_⟩
    have bound : high + 1 ≤ 64 := by
      rw [← length]
      cases file.retained? .mhpmcounter3 Word.ones with
      | none => exact Nat.zero_le _
      | some kept => exact Word.bitLength_le kept
    simp only [survey, counted, if_false, length]
    exact toNat_ofNat_of_le bound
  scounteren := file.contains_optionalFeatures.1
  mcounteren := file.contains_optionalFeatures.2.1
  mcountinhibit := file.contains_optionalFeatures.2.2.1
  sscofpmf := file.contains_optionalFeatures.2.2.2.1
  time := file.contains_optionalFeatures.2.2.2.2.1
  named := file.contains_optionalFeatures.2.2.2.2.2

end CsrFile

namespace FeatureRecord

/-- A set of named features is known by its members. -/
private theorem features_eq {left right : FeatureFlags}
    (leftNamed : left.bits &&& ~~~FeatureFlags.family.known = 0)
    (rightNamed : right.bits &&& ~~~FeatureFlags.family.known = 0)
    (same : ∀ feature ∈ FeatureFlags.named.map Prod.fst,
      left.contains feature = right.contains feature) : left = right := by
  have member (position : Fin 5) : left.bits.getLsbD position = right.bits.getLsbD position := by
    have listed : (⟨(1 : Word) <<< position.val⟩ : FeatureFlags) ∈ FeatureFlags.named.map Prod.fst := by
      revert position
      decide
    have inside : position.val < 64 := by omega
    rw [← FlagSet.contains_single left inside, ← FlagSet.contains_single right inside,
      same _ listed]
  have unnamed (bits : Word) (named : bits &&& ~~~FeatureFlags.family.known = 0) (position : Nat)
      (high : 5 ≤ position) (inside : position < 64) : bits.getLsbD position = false := by
    have cleared := congrArg (fun word : Word => word.getLsbD position) named
    have known : FeatureFlags.family.known.getLsbD position = false := by
      have all : FeatureFlags.family.known = Word.lowMask 5 := by decide
      rw [all, Word.getLsbD_lowMask (by decide)]
      exact decide_eq_false (not_lt.mpr high)
    simpa only [BitVec.getLsbD_and, BitVec.getLsbD_not, known, inside, decide_true, Bool.not_false,
      Bool.and_true, BitVec.getLsbD_zero, BitVec.ofNat_eq_ofNat, Bool.true_and] using cleared
  ext1
  apply BitVec.eq_of_getLsbD_eq
  intro position inside
  by_cases low : position < 5
  · exact member ⟨position, low⟩
  · rw [unnamed _ leftNamed _ (by omega) inside, unnamed _ rightNamed _ (by omega) inside]

/-- Only one record describes a register file. -/
theorem Describes.unique {left right : FeatureRecord} {file : CsrFile}
    (first : left.Describes file) (second : right.Describes file) : left = right := by
  have features : left.features = right.features := by
    apply features_eq first.named second.named
    intro feature listed
    simp only [FeatureFlags.named, List.map_cons, List.map_nil, List.mem_cons, List.not_mem_nil,
      or_false] at listed
    rcases listed with rfl | rfl | rfl | rfl | rfl
    · exact first.scounteren.trans second.scounteren.symm
    · exact first.mcounteren.trans second.mcounteren.symm
    · exact first.mcountinhibit.trans second.mcountinhibit.symm
    · exact first.sscofpmf.trans second.sscofpmf.symm
    · exact first.time.trans second.time.symm
  have count : left.counterCount = right.counterCount :=
    BitVec.eq_of_toNat_eq (first.counters.unique second.counters)
  have bits : left.counterBits = right.counterBits := by
    by_cases uncounted : left.counterCount = 0
    · rw [first.uncounted uncounted, second.uncounted (count ▸ uncounted)]
    · obtain ⟨register, high, found, greatest, length⟩ := first.counterBits uncounted
      obtain ⟨other, top, located, highest, reached⟩ := second.counterBits (count ▸ uncounted)
      obtain rfl : register = other := Option.some.inj (found.symm.trans located)
      obtain rfl : high = top := greatest.unique highest
      exact BitVec.eq_of_toNat_eq (length.trans reached.symm)
  have protection : left.pmpCount = right.pmpCount ∧ left.pmpGran = right.pmpGran ∧
      left.pmpAddrBits = right.pmpAddrBits := by
    by_cases missing : file.pattern = 0
    · obtain ⟨noCount, noGran, noBits⟩ := first.unprotected missing
      obtain ⟨zeroCount, zeroGran, zeroBits⟩ := second.unprotected missing
      exact ⟨noCount.trans zeroCount.symm, noGran.trans zeroGran.symm, noBits.trans zeroBits.symm⟩
    · obtain ⟨low, least, size⟩ := first.granularity missing
      obtain ⟨bottom, lowest, unit⟩ := second.granularity missing
      obtain rfl : low = bottom := least.unique lowest
      obtain ⟨high, greatest, length⟩ := first.addressBits missing
      obtain ⟨top, highest, reached⟩ := second.addressBits missing
      obtain rfl : high = top := greatest.unique highest
      refine ⟨?_, BitVec.eq_of_toNat_eq (size.trans unit.symm),
        BitVec.eq_of_toNat_eq (length.trans reached.symm)⟩
      exact BitVec.eq_of_toNat_eq ((first.entries missing).unique (second.entries missing))
  obtain ⟨entries, granularity, addressBits⟩ := protection
  cases left
  cases right
  simp_all

end FeatureRecord

/-- Detection on a hart that has no outages ends with the one record that describes the hart, unless
the granularity of its address pattern does not fit a word. -/
theorem HartM.detect_describes (hart : Hart) (steady : hart.outages = [])
    (narrow : hart.csrs.pattern = 0 ∨
      ∃ position < 62, hart.csrs.pattern.getLsbD position = true) :
    ∃ record after, HartM.detect hart = .ok record after ∧
      ∀ other : FeatureRecord, other.Describes hart.csrs ↔ other = record := by
  have fits : hart.csrs.pattern = 0 ∨ Word.trailingZeros hart.csrs.pattern < 62 := by
    by_cases missing : hart.csrs.pattern = 0
    · exact .inl missing
    · obtain ⟨position, small, set⟩ := narrow.resolve_left missing
      exact .inr (((Word.isLeast_trailingZeros missing).2 set).trans_lt small)
  obtain ⟨after, ran, -, -⟩ := HartM.gives_detect hart.csrs fits hart rfl steady
  have described := hart.csrs.describes_survey fits
  refine ⟨hart.csrs.survey, after, ran, fun other => ⟨fun answer => ?_, ?_⟩⟩
  · exact answer.unique described
  · rintro rfl
    exact described

/-- A hart with two protection entries of unlike content, the second of them locked, with a counter
that is in use, and with a real-time counter. -/
def Hart.mixed : Hart :=
  let entries := (({} : Hart).implement .pmpcfg0 0x1f 0x7f).implement .pmpaddr0 0xabcdef00 0xfffffc00
  let locked := entries.implementReadOnly (Csr.pmpaddr 1) 0xfffffc00
  (locked.implement .mhpmcounter3 0x1234 0xffffffffff).implementReadOnly .time 42

theorem HartM.detect_describes_mixed :
    (Hart.mixed.outages = [] ∧ ∃ position < 62, Hart.mixed.csrs.pattern.getLsbD position = true) ∧
      ∃ record after, HartM.detect Hart.mixed = .ok record after ∧
        ∀ other : FeatureRecord, other.Describes Hart.mixed.csrs ↔ other = record := by
  have aligned : ∃ position < 62, Hart.mixed.csrs.pattern.getLsbD position = true :=
    ⟨10, by decide, by decide⟩
  exact ⟨⟨rfl, aligned⟩, HartM.detect_describes Hart.mixed rfl (.inr aligned)⟩

end HartBoot
