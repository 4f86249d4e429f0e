import HartBoot.Hart

/-! # Register files under accepted writes

A register file changes by accepted writes alone. What a register can become in this way keeps its
writable bits, its hardwired bits and its lock, and only the latest write counts. A file evolves
within a set of registers when each register of the set may have been rewritten and every other
one is what it was; this is transitive, so it bounds the effect of whole computations.
-/

namespace HartBoot

namespace Register

/-- A write changes the writable bits and no others. -/
theorem getLsbD_settle (register : Register) (written : Word) (position : Nat) :
    (register.settle written).getLsbD position =
      if register.writable.getLsbD position then written.getLsbD position
      else register.value.getLsbD position := by
  simp only [settle, hardwired, BitVec.getLsbD_or, BitVec.getLsbD_and, BitVec.getLsbD_not]
  by_cases inside : position < 64
  · cases register.writable.getLsbD position <;> simp [inside]
  · simp [BitVec.getLsbD_of_ge _ _ (Nat.le_of_not_lt inside)]

/-- A value that was left behind once is left behind again. -/
theorem settle_settle (register : Register) (written : Word) :
    register.settle (register.settle written) = register.settle written := by
  apply BitVec.eq_of_getLsbD_eq
  intro position inside
  simp only [getLsbD_settle]
  split <;> rfl

/-- Writes in turn change the value alone, each of them by what it writes to the writable bits. -/
theorem foldl_store (register : Register) (values : List Word) :
    values.foldl store register = { register with
      value := values.foldl
        (fun old written => (old &&& ~~~register.writable) ||| (written &&& register.writable))
        register.value } := by
  induction values generalizing register with
  | nil => rfl
  | cons written rest ih => exact ih (register.store written)

/-- One register is what another has become by accepted writes. -/
def Rewrites (before after : Register) : Prop :=
  after = before ∨ before.readOnly = false ∧ ∃ written, after = before.store written

theorem Rewrites.refl (register : Register) : register.Rewrites register := .inl rfl

theorem Rewrites.store {register : Register} (unlocked : register.readOnly = false)
    (written : Word) : register.Rewrites (register.store written) := .inr ⟨unlocked, written, rfl⟩

theorem Rewrites.readOnly_eq {before after : Register} (rewritten : before.Rewrites after) :
    after.readOnly = before.readOnly := by
  rcases rewritten with rfl | ⟨-, written, rfl⟩
  · rfl
  · exact readOnly_store before written

theorem Rewrites.writable_eq {before after : Register} (rewritten : before.Rewrites after) :
    after.writable = before.writable := by
  rcases rewritten with rfl | ⟨-, written, rfl⟩
  · rfl
  · exact writable_store before written

theorem Rewrites.hardwired_eq {before after : Register} (rewritten : before.Rewrites after) :
    after.hardwired = before.hardwired := by
  rcases rewritten with rfl | ⟨-, written, rfl⟩
  · rfl
  · exact hardwired_store before written

/-- The next write leaves the same value behind, whatever was written before. -/
theorem Rewrites.store_eq {before after : Register} (rewritten : before.Rewrites after)
    (written : Word) : after.store written = before.store written := by
  rcases rewritten with rfl | ⟨-, earlier, rfl⟩
  · rfl
  · exact store_store before earlier written

theorem Rewrites.trans {first second third : Register} (early : first.Rewrites second)
    (late : second.Rewrites third) : first.Rewrites third := by
  rcases late with rfl | ⟨unlocked, written, rfl⟩
  · exact early
  · refine .inr ⟨early.readOnly_eq.symm.trans unlocked, written, ?_⟩
    exact early.store_eq written

end Register

private theorem rewrites_trans {first second third : Option Register}
    (early : Option.Rel Register.Rewrites first second)
    (late : Option.Rel Register.Rewrites second third) :
    Option.Rel Register.Rewrites first third := by
  cases early with
  | none => exact late
  | some rewritten =>
    cases late with
    | some again => exact .some (rewritten.trans again)

namespace CsrFile

/-- The value of an implemented register. -/
def value? (file : CsrFile) (csr : Csr) : Option Word := (file[csr]?).map Register.value

theorem value?_of_some {file : CsrFile} {csr : Csr} {register : Register}
    (found : file[csr]? = some register) : file.value? csr = some register.value := by
  rw [value?, found, Option.map_some]

/-- Whether a register is implemented and not read-only. -/
def accepts (file : CsrFile) (csr : Csr) : Bool := (file[csr]?).any (! ·.readOnly)

/-- What a register holds after a write, unless it refuses the write. -/
def retained? (file : CsrFile) (csr : Csr) (written : Word) : Option Word :=
  (file[csr]?).bind fun register =>
    if register.readOnly then none else some (register.settle written)

/-- The file after a write. A register that refuses the write stays as it is. -/
def write (file : CsrFile) (csr : Csr) (written : Word) : CsrFile :=
  match file[csr]? with
  | some register => if register.readOnly then file else file.insert csr (register.store written)
  | none => file

theorem accepts_iff {file : CsrFile} {csr : Csr} :
    file.accepts csr = true ↔ ∃ register, file[csr]? = some register ∧ register.readOnly = false := by
  unfold accepts
  cases file[csr]? <;> simp

theorem isSome_retained? (file : CsrFile) (csr : Csr) (written : Word) :
    (file.retained? csr written).isSome = file.accepts csr := by
  unfold retained? accepts
  cases file[csr]? with
  | none => rfl
  | some register => cases locked : register.readOnly <;> simp [locked]

theorem write_of_accepts {file : CsrFile} {csr : Csr} {register : Register}
    (found : file[csr]? = some register) (unlocked : register.readOnly = false) (written : Word) :
    file.write csr written = file.insert csr (register.store written) := by
  simp [write, found, unlocked]

theorem write_of_refused {file : CsrFile} {csr : Csr} (refused : file.accepts csr = false)
    (written : Word) : file.write csr written = file := by
  unfold accepts at refused
  unfold write
  cases found : file[csr]? with
  | none => rfl
  | some register => simp_all

theorem getElem?_insert_eq (file : CsrFile) (csr other : Csr) (register : Register) :
    (file.insert csr register)[other]? = if csr = other then some register else file[other]? := by
  rw [Std.ExtTreeMap.getElem?_insert]
  simp only [Std.LawfulEqOrd.compare_eq_iff_eq]

theorem getElem?_write_self {file : CsrFile} {csr : Csr} {register : Register}
    (found : file[csr]? = some register) (unlocked : register.readOnly = false) (written : Word) :
    (file.write csr written)[csr]? = some (register.store written) := by
  rw [write_of_accepts found unlocked, getElem?_insert_eq, if_pos rfl]

/-- A written register, wherever it is absent, locked or rewritten. -/
theorem getElem?_write (file : CsrFile) (csr : Csr) (written : Word) :
    (file.write csr written)[csr]? = (file[csr]?).map fun register =>
      if register.readOnly then register else register.store written := by
  cases found : file[csr]? with
  | none => simp [write, found]
  | some register =>
    cases locked : register.readOnly with
    | true => simp [write, found, locked]
    | false => simp [getElem?_write_self found locked, locked]

theorem getElem?_write_of_ne (file : CsrFile) {csr other : Csr} (apart : other ≠ csr)
    (written : Word) : (file.write csr written)[other]? = file[other]? := by
  unfold write
  split
  · split
    · rfl
    · rw [getElem?_insert_eq, if_neg (Ne.symm apart)]
  · rfl

theorem value?_write_of_ne (file : CsrFile) {csr other : Csr} (apart : other ≠ csr)
    (written : Word) : (file.write csr written).value? other = file.value? other := by
  rw [value?, value?, getElem?_write_of_ne file apart]

/-- Writing a register twice is writing it once. -/
theorem write_write (file : CsrFile) (csr : Csr) (first second : Word) :
    (file.write csr first).write csr second = file.write csr second := by
  cases found : file[csr]? with
  | none => simp [write, found]
  | some register =>
    cases locked : register.readOnly with
    | true => simp [write, found, locked]
    | false =>
      have stored := getElem?_write_self found locked first
      apply Std.ExtTreeMap.ext_getElem?
      intro other
      by_cases same : other = csr
      · subst same
        rw [getElem?_write_self stored locked, getElem?_write_self found locked,
          Register.store_store]
      · simp only [getElem?_write_of_ne _ same]

/-- Writing back what a register holds changes nothing. -/
theorem write_value {file : CsrFile} {csr : Csr} {register : Register}
    (found : file[csr]? = some register) : file.write csr register.value = file := by
  cases locked : register.readOnly with
  | true => simp [write, found, locked]
  | false =>
    apply Std.ExtTreeMap.ext_getElem?
    intro other
    by_cases same : other = csr
    · subst same
      rw [getElem?_write_self found locked, Register.store_value, found]
    · rw [getElem?_write_of_ne _ same]

/-- The file after writes in turn. -/
def writeAll (file : CsrFile) (entries : List (Csr × Word)) : CsrFile :=
  entries.foldl (fun file entry => file.write entry.1 entry.2) file

theorem writeAll_append (file : CsrFile) (first second : List (Csr × Word)) :
    file.writeAll (first ++ second) = (file.writeAll first).writeAll second :=
  List.foldl_append

/-- A register among writes in turn takes the values that are written to it, unless it is locked. -/
theorem getElem?_writeAll (file : CsrFile) (entries : List (Csr × Word)) (csr : Csr) :
    (file.writeAll entries)[csr]? = (file[csr]?).map fun register =>
      if register.readOnly then register
      else ((entries.filter (·.1 == csr)).map Prod.snd).foldl Register.store register := by
  induction entries generalizing file with
  | nil => simp [writeAll]
  | cons entry rest ih =>
    obtain ⟨other, written⟩ := entry
    have step : file.writeAll ((other, written) :: rest) = (file.write other written).writeAll rest :=
      rfl
    rw [step, ih]
    by_cases same : other = csr
    · subst same
      rw [getElem?_write, Option.map_map]
      congr 1
      funext register
      cases locked : register.readOnly <;> simp [locked]
    · rw [getElem?_write_of_ne file (Ne.symm same)]
      simp [same]

/-- One file is what another has become by accepted writes to some registers. -/
structure Evolves (touched : Csr → Prop) (before after : CsrFile) : Prop where
  rewrites : ∀ csr : Csr, Option.Rel Register.Rewrites before[csr]? after[csr]?
  frame : ∀ csr : Csr, ¬ touched csr → after[csr]? = before[csr]?

namespace Evolves

variable {touched : Csr → Prop} {before after : CsrFile}

theorem refl (touched : Csr → Prop) (file : CsrFile) : Evolves touched file file where
  rewrites csr := by
    cases file[csr]? with
    | none => exact .none
    | some register => exact .some (.refl register)
  frame _ _ := rfl

theorem trans {later : CsrFile} (early : Evolves touched before after)
    (late : Evolves touched after later) : Evolves touched before later where
  rewrites csr := rewrites_trans (early.rewrites csr) (late.rewrites csr)
  frame csr spared := (late.frame csr spared).trans (early.frame csr spared)

theorem mono {wider : Csr → Prop} (evolves : Evolves touched before after)
    (widens : ∀ csr, touched csr → wider csr) : Evolves wider before after where
  rewrites := evolves.rewrites
  frame csr spared := evolves.frame csr fun hit => spared (widens csr hit)

theorem write (file : CsrFile) {csr : Csr} (hit : touched csr) (written : Word) :
    Evolves touched file (file.write csr written) where
  rewrites other := by
    by_cases same : other = csr
    · subst same
      cases found : file[other]? with
      | none => simp [CsrFile.write, found]
      | some register =>
        cases locked : register.readOnly with
        | true => simp [CsrFile.write, found, locked, Register.Rewrites.refl]
        | false =>
          rw [getElem?_write_self found locked]
          exact .some (.store locked written)
    · rw [getElem?_write_of_ne _ same]
      exact (refl touched file).rewrites other
  frame other spared := by
    apply getElem?_write_of_ne
    rintro rfl
    exact spared hit

theorem writeAll {entries : List (Csr × Word)} (hit : ∀ entry ∈ entries, touched entry.1)
    (file : CsrFile) : Evolves touched file (file.writeAll entries) := by
  induction entries generalizing file with
  | nil => exact refl touched file
  | cons entry rest ih =>
    have first := write file (hit entry List.mem_cons_self) entry.2
    exact first.trans (ih (fun later member => hit later (List.mem_cons_of_mem entry member)) _)

/-- An implemented register stays implemented, with the same writable and hardwired bits. -/
theorem of_some (evolves : Evolves touched before after) {csr : Csr} {register : Register}
    (found : before[csr]? = some register) :
    ∃ rewritten, after[csr]? = some rewritten ∧ register.Rewrites rewritten := by
  have related := evolves.rewrites csr
  rw [found] at related
  cases stored : after[csr]? with
  | none => simp [stored] at related
  | some rewritten =>
    rw [stored] at related
    cases related with
    | some held => exact ⟨rewritten, rfl, held⟩

/-- A register that refuses writes never changes. -/
theorem of_readOnly (evolves : Evolves touched before after) {csr : Csr}
    {register : Register} (found : before[csr]? = some register)
    (locked : register.readOnly = true) : after[csr]? = some register := by
  obtain ⟨rewritten, stored, same | ⟨unlocked, -⟩⟩ := evolves.of_some found
  · rw [stored, same]
  · rw [locked] at unlocked
    cases unlocked

/-- What a write leaves behind in a register depends on nothing that writes can change. -/
theorem retained?_eq (evolves : Evolves touched before after) (csr : Csr) (written : Word) :
    after.retained? csr written = before.retained? csr written := by
  have related := evolves.rewrites csr
  unfold retained?
  revert related
  generalize before[csr]? = old
  generalize after[csr]? = new
  intro related
  cases related with
  | none => rfl
  | some rewritten =>
    have settled : _ = _ := congrArg Register.value (rewritten.store_eq written)
    simp only [Register.store] at settled
    simp only [Option.bind_some, rewritten.readOnly_eq, settled]

theorem accepts_eq (evolves : Evolves touched before after) (csr : Csr) :
    after.accepts csr = before.accepts csr := by
  rw [← isSome_retained? after csr 0, ← isSome_retained? before csr 0, evolves.retained?_eq]

theorem isSome_eq (evolves : Evolves touched before after) (csr : Csr) :
    (after[csr]?).isSome = (before[csr]?).isSome := by
  have related := evolves.rewrites csr
  revert related
  generalize before[csr]? = old
  generalize after[csr]? = new
  intro related
  cases related <;> rfl

/-- A register that refuses writes, or is absent, stays as it is. -/
theorem of_refused (evolves : Evolves touched before after) {csr : Csr}
    (refused : before.accepts csr = false) : after[csr]? = before[csr]? := by
  cases found : before[csr]? with
  | none =>
    have absent := evolves.isSome_eq csr
    rw [found] at absent
    exact Option.not_isSome_iff_eq_none.mp (by rw [absent]; decide)
  | some register =>
    rw [accepts, found] at refused
    exact evolves.of_readOnly found (by simpa using refused)

/-- A register that is found later was there before. -/
theorem origin (evolves : Evolves touched before after) {csr : Csr} {rewritten : Register}
    (found : after[csr]? = some rewritten) :
    ∃ register, before[csr]? = some register ∧ register.Rewrites rewritten := by
  have present : before[csr]?.isSome = true := by rw [← evolves.isSome_eq, found]; rfl
  obtain ⟨register, held⟩ := Option.isSome_iff_exists.mp present
  obtain ⟨stored, again, rewrites⟩ := evolves.of_some held
  obtain rfl : stored = rewritten := Option.some.inj (again.symm.trans found)
  exact ⟨register, held, rewrites⟩

end Evolves

end CsrFile

end HartBoot
