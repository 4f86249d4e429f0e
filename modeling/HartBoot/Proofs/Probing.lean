import HartBoot.Features.Detect
import HartBoot.Proofs.Access

/-! # What probing tells and what it leaves behind

Every probe of detection reports something that the hardwired and the writable bits of a register
decide, and all probes but the first put back what they found. The first one clears the first
configuration register and leaves the address pattern in the first address register. Together,
detection computes a survey of the register file in which no writable content takes part.
-/

namespace HartBoot

namespace CsrFile

/-- Whether a register holds a value once it is written. -/
def keeps (file : CsrFile) (csr : Csr) (written : Word) : Bool :=
  file.retained? csr written == some written

/-- Whether a register is implemented. -/
def implements (file : CsrFile) (csr : Csr) : Bool := (file[csr]?).isSome

/-- What the first protection entry holds of all possible address bits, or zero without memory
protection. -/
def pattern (file : CsrFile) : Word :=
  if file.accepts .pmpcfg0 then (file.retained? .pmpaddr0 HartM.addressPattern).getD 0 else 0

/-- The registers after the address pattern was tried. -/
def probed (file : CsrFile) : CsrFile :=
  if file.accepts .pmpcfg0 then (file.write .pmpcfg0 0).write .pmpaddr0 HartM.addressPattern
  else file

theorem keeps_iff {file : CsrFile} {csr : Csr} {written : Word} :
    file.keeps csr written = true ↔
      ∃ register, file[csr]? = some register ∧ register.readOnly = false ∧
        register.settle written = written := by
  simp only [keeps, retained?, beq_iff_eq, Option.bind_eq_some_iff, Option.ite_none_left_eq_some,
    Option.some.injEq, Bool.not_eq_true]

theorem evolves_probed (file : CsrFile) :
    Evolves (fun csr => csr = .pmpcfg0 ∨ csr = .pmpaddr0) file file.probed := by
  unfold probed
  split
  · exact (Evolves.write file (.inl rfl) 0).trans (.write _ (.inr rfl) _)
  · exact .refl _ _

end CsrFile

namespace HartM

variable {file : CsrFile}

/-- A register is written and what it held is put back. -/
private theorem gives_swapBack {csr : Csr} {register : Register} (found : file[csr]? = some register)
    (unlocked : register.readOnly = false) (written : Word) :
    Gives [] (swap csr register.value) (file.write csr written) (register.settle written) file := by
  have stored := CsrFile.getElem?_write_self found unlocked written
  have swapped : Gives [] (swap csr register.value) (file.write csr written)
      (register.settle written) ((file.write csr written).write csr register.value) :=
    gives_swap stored unlocked register.value
  rwa [CsrFile.write_write, CsrFile.write_value found] at swapped

/-- A register that can be written in principle is reported by what it keeps. -/
theorem gives_holds (file : CsrFile) {csr : Csr} (ordinary : csr.isReadOnly = false) (value : Word) :
    Gives [] (holds csr value) file (file.keeps csr value) file := by
  refine (gives_probeRead file csr).bind ?_
  cases found : file[csr]? with
  | none => simpa [readReport, CsrFile.value?, CsrFile.keeps, CsrFile.retained?, found] using .pure _ _
  | some register =>
    simp only [readReport, CsrFile.value?, found, Option.map_some, Option.elim_some, ordinary,
      Bool.false_eq_true, if_false]
    refine (gives_probeWrite file csr value).bind ?_
    cases unlocked : register.readOnly with
    | true =>
      simpa [writeReport, CsrFile.accepts, CsrFile.keeps, CsrFile.retained?, CsrFile.write, found,
        unlocked] using .pure _ _
    | false =>
      simp only [writeReport, CsrFile.accepts, CsrFile.keeps, CsrFile.retained?, found, unlocked,
        Option.any_some, Bool.not_false, if_true, Option.bind_some, Bool.false_eq_true, if_false]
      refine (gives_swapBack found unlocked value).bind ?_
      simpa using .pure _ _

theorem gives_writableBits? (file : CsrFile) (csr : Csr) :
    Gives [] (writableBits? csr) file (file.retained? csr Word.ones) file := by
  refine (gives_probeRead file csr).bind ?_
  cases found : file[csr]? with
  | none => simpa [readReport, CsrFile.value?, CsrFile.retained?, found] using .pure _ _
  | some register =>
    simp only [readReport, CsrFile.value?, found, Option.map_some, Option.elim_some]
    refine (gives_probeWrite file csr Word.ones).bind ?_
    cases unlocked : register.readOnly with
    | true =>
      simpa [writeReport, CsrFile.accepts, CsrFile.retained?, CsrFile.write, found, unlocked]
        using .pure _ _
    | false =>
      simp only [writeReport, CsrFile.accepts, CsrFile.retained?, found, unlocked,
        Option.any_some, Bool.not_false, if_true, Option.bind_some, Bool.false_eq_true, if_false]
      exact (gives_swapBack found unlocked Word.ones).map some

/-- A register that is written with its own content is reported by whether it takes writes. -/
theorem gives_isControllable (file : CsrFile) (csr : Csr) :
    Gives [] (isControllable csr) file (file.accepts csr) file := by
  refine (gives_probeRead file csr).bind ?_
  cases found : file[csr]? with
  | none => simpa [readReport, CsrFile.value?, CsrFile.accepts, found] using .pure _ _
  | some register =>
    simp only [readReport, CsrFile.value?, found, Option.map_some, Option.elim_some]
    have attempt := (gives_probeWrite file csr register.value).map Except.isOk
    rw [CsrFile.write_value found] at attempt
    have reported : (writeReport file csr).isOk = file.accepts csr := by
      unfold writeReport
      split <;> simp_all [Except.isOk, Except.toBool]
    rw [reported] at attempt
    exact attempt

/-- Testing registers in turn counts those before the first failure. -/
theorem gives_leadingRun {test : Csr → HartM Bool} {passes : Csr → Bool} (csrs : List Csr)
    (tested : ∀ csr ∈ csrs, Gives [] (test csr) file (passes csr) file) :
    Gives [] (leadingRun test csrs) file (csrs.takeWhile passes).length file := by
  induction csrs with
  | nil => exact .pure _ _
  | cons csr rest ih =>
    refine (tested csr (List.mem_cons_self ..)).bind ?_
    have others := ih fun other member => tested other (List.mem_cons_of_mem _ member)
    cases passed : passes csr with
    | true =>
      simp only [List.takeWhile_cons, passed, if_true, List.length_cons]
      exact others.map (· + 1)
    | false =>
      simp only [List.takeWhile_cons, passed, Bool.false_eq_true, if_false, List.length_nil]
      exact .pure _ _

/-- The address pattern is tried on the first entry, unless memory protection is missing. -/
theorem gives_probeAddress (file : CsrFile) :
    Gives [] probeAddress file file.pattern file.probed := by
  refine (gives_probeWrite file .pmpcfg0 0).bind ?_
  cases configurable : file.accepts .pmpcfg0 with
  | false =>
    rw [CsrFile.write_of_refused configurable]
    simpa [writeReport, CsrFile.pattern, CsrFile.probed, configurable] using .pure _ _
  | true =>
    have cleared : CsrFile.Evolves (fun _ => True) file (file.write .pmpcfg0 0) :=
      .write file trivial 0
    simp only [writeReport, configurable, if_true]
    refine (gives_probeWrite _ .pmpaddr0 addressPattern).bind ?_
    simp only [CsrFile.pattern, CsrFile.probed, configurable, if_true, writeReport,
      ← cleared.retained?_eq]
    generalize file.write .pmpcfg0 0 = blank
    cases present : blank.accepts .pmpaddr0 with
    | false =>
      have refused := CsrFile.isSome_retained? blank .pmpaddr0 addressPattern
      rw [present, Option.isSome_eq_false_iff, Option.isNone_iff_eq_none] at refused
      simpa [refused] using .pure _ _
    | true =>
      obtain ⟨register, found, unlocked⟩ := CsrFile.accepts_iff.mp present
      have stored := CsrFile.getElem?_write_self found unlocked addressPattern
      have answer := (gives_probeRead (blank.write .pmpaddr0 addressPattern) .pmpaddr0).map
        fun report => report.toOption.getD 0
      simp only [readReport, CsrFile.value?, stored, Option.map_some, Option.elim_some] at answer
      simp only [CsrFile.retained?, found, unlocked, Option.bind_some, Bool.false_eq_true, if_false,
        Option.getD_some]
      exact answer

end HartM

end HartBoot
