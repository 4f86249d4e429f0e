import HartBoot.Proofs.Access
import Mathlib.Data.List.Nodup

/-! # Presets and the actions that write them

A preset is a value for a register, given under a condition that is known beforehand. What a list of
presets leaves in a register file can be read off the list, as long as no register is named twice.

Unguarded writes stop a hart where a register refuses them, so what an action needs of the registers
is as much part of its effect as what it leaves behind. `HartM.Runs` says both at once: the action
ends as told where its needs are met, and it stops where they are not. `HartM.Sets` says more of an
action whose needs are met: it writes the given presets in turn, and does nothing else to the hart.
-/

namespace HartBoot

/-- A value that a register is given, if the preset applies. -/
structure Preset where
  csr : Csr
  written : Word
  applies : Bool := true
deriving DecidableEq, Repr

namespace CsrFile

/-- The registers after a preset is written. -/
def preset (file : CsrFile) (preset : Preset) : CsrFile :=
  if preset.applies then file.write preset.csr preset.written else file

/-- The registers after presets are written in turn. -/
def presetAll (file : CsrFile) (presets : List Preset) : CsrFile := presets.foldl CsrFile.preset file

/-- Every preset that applies finds its register ready to be written when its turn comes. -/
def Takes (file : CsrFile) : List Preset → Prop
  | [] => True
  | preset :: rest =>
    (preset.applies = true → file.accepts preset.csr = true) ∧ (file.preset preset).Takes rest

variable {file before after : CsrFile} {presets : List Preset} {csr : Csr} {touched : Csr → Prop}

theorem evolves_preset (file : CsrFile) (preset : Preset) :
    Evolves (fun csr => preset.applies = true ∧ csr = preset.csr) file (file.preset preset) := by
  unfold CsrFile.preset
  split
  next applies => exact .write file ⟨applies, rfl⟩ preset.written
  next => exact .refl _ file

theorem evolves_presetAll (file : CsrFile) (presets : List Preset) :
    Evolves (fun csr => ∃ preset ∈ presets, preset.applies = true ∧ csr = preset.csr) file
      (file.presetAll presets) := by
  induction presets generalizing file with
  | nil => exact .refl _ file
  | cons preset rest ih =>
    have now := (file.evolves_preset preset).mono fun csr hit =>
      (⟨preset, List.mem_cons_self .., hit⟩ : ∃ other ∈ preset :: rest,
        other.applies = true ∧ csr = other.csr)
    refine now.trans ((ih (file.preset preset)).mono fun csr hit => ?_)
    obtain ⟨other, member, named⟩ := hit
    exact ⟨other, List.mem_cons_of_mem _ member, named⟩

theorem presetAll_append (file : CsrFile) (first second : List Preset) :
    file.presetAll (first ++ second) = (file.presetAll first).presetAll second :=
  List.foldl_append

/-- Whether presets can be written does not depend on what is written on the way. -/
theorem takes_iff : file.Takes presets ↔
    ∀ preset ∈ presets, preset.applies = true → file.accepts preset.csr = true := by
  induction presets generalizing file with
  | nil => simp [Takes]
  | cons preset rest ih =>
    rw [Takes, ih, List.forall_mem_cons]
    simp only [(file.evolves_preset preset).accepts_eq]

theorem takes_append {first second : List Preset} :
    file.Takes (first ++ second) ↔ file.Takes first ∧ file.Takes second := by
  simp only [takes_iff, List.forall_mem_append]

theorem Evolves.takes_iff (evolves : Evolves touched before after) :
    after.Takes presets ↔ before.Takes presets := by
  simp only [CsrFile.takes_iff, evolves.accepts_eq]

/-- Presets for other registers leave a register alone. -/
theorem getElem?_presetAll_of_not (spared : ∀ preset ∈ presets, preset.applies = true →
    preset.csr ≠ csr) : (file.presetAll presets)[csr]? = file[csr]? := by
  apply (file.evolves_presetAll presets).frame
  rintro ⟨preset, member, applies, rfl⟩
  exact spared preset member applies rfl

theorem value?_presetAll_of_unnamed (absent : csr ∉ presets.map Preset.csr) :
    (file.presetAll presets).value? csr = file.value? csr := by
  rw [value?, value?, getElem?_presetAll_of_not]
  rintro preset member - rfl
  exact absent (List.mem_map_of_mem member)

/-- A register that is named once holds what it keeps of its preset. -/
theorem getElem?_presetAll_of_mem (distinct : (presets.map Preset.csr).Nodup) {preset : Preset}
    (member : preset ∈ presets) (applies : preset.applies = true) :
    (file.presetAll presets)[preset.csr]? = (file.write preset.csr preset.written)[preset.csr]? := by
  induction presets generalizing file with
  | nil => exact absurd member List.not_mem_nil
  | cons first rest ih =>
    rw [List.map_cons, List.nodup_cons] at distinct
    rw [presetAll, List.foldl_cons, ← presetAll]
    rcases List.mem_cons.mp member with rfl | later
    · rw [getElem?_presetAll_of_not, CsrFile.preset, if_pos applies]
      intro other listed _ same
      exact distinct.1 (same ▸ List.mem_map_of_mem listed)
    · have apart : preset.csr ≠ first.csr := by
        rintro same
        exact distinct.1 (same ▸ List.mem_map_of_mem later)
      rw [ih distinct.2 later, getElem?_write, getElem?_write,
        (file.evolves_preset first).frame _ fun hit => apart hit.2]

/-- Where presets can be written, each register that is named once keeps what it can of its
preset. -/
theorem Takes.exists_store (takes : file.Takes presets)
    (distinct : (presets.map Preset.csr).Nodup) {preset : Preset} (member : preset ∈ presets)
    (applies : preset.applies = true) :
    ∃ register, file[preset.csr]? = some register ∧ register.readOnly = false ∧
      (file.presetAll presets)[preset.csr]? = some (register.store preset.written) := by
  obtain ⟨register, found, unlocked⟩ :=
    accepts_iff.mp (CsrFile.takes_iff.mp takes preset member applies)
  refine ⟨register, found, unlocked, ?_⟩
  rw [getElem?_presetAll_of_mem distinct member applies, getElem?_write_self found unlocked]

theorem value?_preset_of_ne {preset : Preset} (apart : csr ≠ preset.csr) :
    (file.preset preset).value? csr = file.value? csr := by
  rw [value?, value?, (file.evolves_preset preset).frame _ fun hit => apart hit.2]

end CsrFile

namespace HartM

variable {α β : Type}

/-- From the given registers, an action ends with the given result and registers where its needs are
met, and stops where they are not. It also tells whether the floating-point registers are cleared on
the way. -/
def Runs (action : HartM α) (before : CsrFile) (needs : Prop) (result : α) (after : CsrFile)
    (clears : Bool) : Prop :=
  ∀ hart : Hart, hart.csrs = before →
    (needs ∧ ∃ final, action hart = .ok result final ∧ final.csrs = after ∧
      final.outages = hart.outages ∧ final.floatCleared = (hart.floatCleared || clears)) ∨
    (¬needs ∧ ∃ stop final, action hart = .error stop final)

variable {before middle after file : CsrFile} {needs : Prop} {clears : Bool} {outcome : β}
  {next : Unit → HartM β}

namespace Runs

theorem pure (result : α) (file : CsrFile) :
    Runs (Pure.pure result) file True result file false := by
  rintro hart rfl
  exact .inl ⟨trivial, hart, rfl, rfl, rfl, (Bool.or_false _).symm⟩

theorem congr {action : HartM α} {wanted : Prop} {result : α}
    (runs : Runs action before needs result after clears) (same : needs ↔ wanted) :
    Runs action before wanted result after clears := propext same ▸ runs

/-- What follows an action matters only where the needs of the action are met. -/
theorem bind {action : HartM α} {next : α → HartM β} {first second : Prop} {result : α}
    {early late : Bool} (runs : Runs action before first result middle early)
    (follows : first → Runs (next result) middle second outcome after late) :
    Runs (action >>= next) before (first ∧ second) outcome after (early || late) := by
  rintro hart rfl
  rcases runs hart rfl with ⟨met, paused, ran, rfl, outages, cleared⟩ | ⟨unmet, stop, final, stopped⟩
  · rw [bind_ok ran]
    rcases follows met paused rfl with ⟨also, final, ended, registers, still, later⟩ | ⟨unmet, stopped⟩
    · refine .inl ⟨⟨met, also⟩, final, ended, registers, still.trans outages, ?_⟩
      rw [later, cleared, Bool.or_assoc]
    · exact .inr ⟨fun both => unmet both.2, stopped⟩
  · refine .inr ⟨fun both => unmet both.1, stop, final, ?_⟩
    simp only [Bind.bind, EStateM.bind, stopped]

/-- An action that is followed by an answer. -/
theorem answering {action : HartM α} {result : α} (answer : β)
    (runs : Runs action before needs result after clears) :
    Runs (action >>= fun _ => Pure.pure answer) before needs answer after clears := by
  have ended := @bind α β before after after answer action (fun _ => Pure.pure answer) needs True result
    clears false runs fun _ => pure answer after
  rw [Bool.or_false] at ended
  exact ended.congr (iff_of_eq (and_true _))

/-- An action without needs that changes nothing but tells something. -/
theorem known {action : HartM α} {next : α → HartM β} {result : α}
    (given : ∀ hart : Hart, hart.csrs = before → action hart = .ok result hart)
    (follows : Runs (next result) before needs outcome after clears) :
    Runs (action >>= next) before needs outcome after clears := by
  intro hart registers
  rw [bind_ok (given hart registers)]
  exact follows hart registers

theorem write (file : CsrFile) (csr : Csr) (written : Word) :
    Runs (HartM.write csr written) file (file.accepts csr = true) () (file.write csr written)
      false := by
  rintro hart rfl
  let noted := hart.note (.write csr written)
  cases accepts : hart.csrs.accepts csr with
  | true =>
    obtain ⟨register, found, unlocked⟩ := CsrFile.accepts_iff.mp accepts
    let stored := { noted with
      csrs := noted.csrs.insert csr (register.store written)
      writes := noted.writes.push (csr, written) }
    have accepted : noted.store? csr written = some (register.value, stored) :=
      Hart.store?_eq_some_iff.mpr ⟨register, found, unlocked, rfl, rfl⟩
    refine .inl ⟨rfl, stored, by simp only [HartM.write, noted, accepted], ?_, rfl, ?_⟩
    · exact (CsrFile.write_of_accepts found unlocked written).symm
    · exact (Bool.or_false _).symm
  | false =>
    have refused : noted.store? csr written = none := Hart.store?_eq_none_iff.mpr accepts
    exact .inr ⟨Bool.false_ne_true, .illegalWrite csr, noted, by
      simp only [HartM.write, noted, refused]⟩

/-- Clearing the floating-point unit clears its status too, where this is implemented. -/
theorem clearFloat {status : Preset} (named : status.csr = .fcsr) (zero : status.written = 0)
    (applies : status.applies = (file[Csr.fcsr]?).isSome) :
    Runs HartM.clearFloat file (file.Takes [status]) () (file.presetAll [status]) true := by
  rintro hart rfl
  let cleared := { hart.note .clearFloat with floatCleared := true }
  have implemented : cleared.implements .fcsr = (hart.csrs[Csr.fcsr]?).isSome :=
    Std.ExtTreeMap.contains_eq_isSome_getElem?
  have set : true = (hart.floatCleared || true) := (Bool.or_true _).symm
  have needs : hart.csrs.Takes [status] ↔
      (cleared.implements .fcsr = true → hart.csrs.accepts .fcsr = true) := by
    rw [CsrFile.Takes, CsrFile.Takes, applies, named, implemented, and_true]
  have left : hart.csrs.presetAll [status] =
      if cleared.implements .fcsr = true then hart.csrs.write .fcsr 0 else hart.csrs := by
    rw [implemented, ← applies, ← named, ← zero]
    rfl
  rw [needs, left]
  cases there : cleared.implements .fcsr with
  | false =>
    refine .inl ⟨fun present => absurd present Bool.false_ne_true, cleared, ?_, rfl, rfl, set⟩
    simp only [HartM.clearFloat, cleared, there, Bool.false_eq_true, if_false]
  | true =>
    simp only [forall_const, if_true]
    cases accepts : hart.csrs.accepts .fcsr with
    | true =>
      obtain ⟨register, found, unlocked⟩ := CsrFile.accepts_iff.mp accepts
      let stored := { cleared with
        csrs := cleared.csrs.insert .fcsr (register.store 0)
        writes := cleared.writes.push (.fcsr, 0) }
      have accepted : cleared.store? .fcsr 0 = some (register.value, stored) :=
        Hart.store?_eq_some_iff.mpr ⟨register, found, unlocked, rfl, rfl⟩
      refine .inl ⟨rfl, stored, ?_, (CsrFile.write_of_accepts found unlocked 0).symm, rfl, set⟩
      simp only [HartM.clearFloat, cleared, accepted, there, if_true]
    | false =>
      have refused : cleared.store? .fcsr 0 = none := Hart.store?_eq_none_iff.mpr accepts
      refine .inr ⟨Bool.false_ne_true, .illegalWrite .fcsr, cleared, ?_⟩
      simp only [HartM.clearFloat, cleared, refused, there, if_true]

/-- One action writes some presets, and what follows it writes others. -/
theorem presets_append {action : HartM α} {next : α → HartM β} {result : α}
    {first second : List Preset} {early late : Bool}
    (runs : Runs action file (file.Takes first) result (file.presetAll first) early)
    (follows : file.Takes first → Runs (next result) (file.presetAll first)
      ((file.presetAll first).Takes second) outcome ((file.presetAll first).presetAll second) late) :
    Runs (action >>= next) file (file.Takes (first ++ second)) outcome
      (file.presetAll (first ++ second)) (early || late) := by
  rw [CsrFile.presetAll_append]
  refine (runs.bind follows).congr ?_
  rw [CsrFile.takes_append, (file.evolves_presetAll first).takes_iff]

/-- Nothing is left to write. -/
theorem presets_nil (result : α) (file : CsrFile) :
    Runs (Pure.pure result) file (file.Takes []) result (file.presetAll []) false := pure result file

/-- A preset that applies is written before the others. -/
theorem presets_cons {preset : Preset} {presets : List Preset} (applies : preset.applies = true)
    (rest : Runs (next ()) (file.preset preset) ((file.preset preset).Takes presets) outcome
      ((file.preset preset).presetAll presets) clears) :
    Runs (HartM.write preset.csr preset.written >>= next) file (file.Takes (preset :: presets))
      outcome (file.presetAll (preset :: presets)) clears := by
  have stored : file.preset preset = file.write preset.csr preset.written := if_pos applies
  rw [CsrFile.presetAll, List.foldl_cons, ← CsrFile.presetAll, CsrFile.Takes]
  rw [stored] at rest ⊢
  have follows := (write file preset.csr preset.written).bind fun _ => rest
  rw [Bool.false_or] at follows
  refine follows.congr ?_
  simp only [applies, forall_const]

/-- A preset that does not apply is passed over. -/
theorem presets_skip {action : HartM β} {preset : Preset} {presets : List Preset}
    (idle : preset.applies = false)
    (rest : Runs action file (file.Takes presets) outcome (file.presetAll presets) clears) :
    Runs action file (file.Takes (preset :: presets)) outcome (file.presetAll (preset :: presets))
      clears := by
  have kept : file.preset preset = file := if_neg (by simp [idle])
  rw [CsrFile.presetAll, List.foldl_cons, ← CsrFile.presetAll, CsrFile.Takes, kept]
  refine rest.congr ?_
  simp only [idle, Bool.false_eq_true, false_imp_iff, true_and]

/-- A preset is written before the others, or passed over if it does not apply. -/
theorem presets_cons_if {preset : Preset} {presets : List Preset}
    (rest : Runs (next ()) (file.preset preset) ((file.preset preset).Takes presets) outcome
      ((file.preset preset).presetAll presets) clears) :
    Runs (if preset.applies = true then HartM.write preset.csr preset.written >>= next else next ())
      file (file.Takes (preset :: presets)) outcome (file.presetAll (preset :: presets)) clears := by
  cases applies : preset.applies with
  | true =>
    rw [if_pos rfl]
    exact presets_cons applies rest
  | false =>
    have kept : file.preset preset = file := if_neg (by simp [applies])
    rw [if_neg Bool.false_ne_true]
    rw [kept] at rest
    exact presets_skip applies rest

/-- The last preset, which applies. -/
theorem presets_end {preset : Preset} (applies : preset.applies = true) :
    Runs (HartM.write preset.csr preset.written) file (file.Takes [preset]) ()
      (file.presetAll [preset]) false := by
  have ended := @presets_cons Unit file false () Pure.pure preset [] applies (presets_nil () _)
  rwa [bind_pure] at ended

/-- The last preset, if it applies. -/
theorem presets_last {preset : Preset} :
    Runs (if preset.applies = true then HartM.write preset.csr preset.written else Pure.pure ()) file
      (file.Takes [preset]) () (file.presetAll [preset]) false := by
  have ended := @presets_cons_if Unit file false () Pure.pure preset [] (presets_nil () _)
  rwa [bind_pure] at ended

end Runs

end HartM

/-- The access that writes a preset. -/
def Preset.access (preset : Preset) : Access := .write preset.csr preset.written

namespace Hart

/-- The hart after a preset is written. -/
def set (hart : Hart) (preset : Preset) : Hart :=
  if preset.applies then
    { hart with
      csrs := hart.csrs.write preset.csr preset.written
      writes := hart.writes.push (preset.csr, preset.written)
      trace := hart.trace.push (.write preset.csr preset.written) }
  else hart

/-- The hart after presets are written in turn. -/
def setAll (hart : Hart) (presets : List Preset) : Hart := presets.foldl set hart

theorem setAll_append (hart : Hart) (first second : List Preset) :
    hart.setAll (first ++ second) = (hart.setAll first).setAll second := List.foldl_append

theorem csrs_setAll (hart : Hart) (presets : List Preset) :
    (hart.setAll presets).csrs = hart.csrs.presetAll presets := by
  induction presets generalizing hart with
  | nil => rfl
  | cons preset rest ih =>
    have now : (hart.set preset).csrs = hart.csrs.preset preset := by
      unfold set CsrFile.preset
      split <;> rfl
    rw [setAll, List.foldl_cons, ← setAll, ih, now]
    rfl

/-- Every preset that applies is an access of its own. -/
theorem trace_setAll (hart : Hart) (presets : List Preset) :
    (hart.setAll presets).trace.toList = hart.trace.toList ++
      (presets.filter Preset.applies).map Preset.access := by
  induction presets generalizing hart with
  | nil => exact (List.append_nil _).symm
  | cons preset rest ih =>
    rw [setAll, List.foldl_cons, ← setAll, ih]
    cases applies : preset.applies with
    | true => simp [set, applies, Preset.access]
    | false => simp [set, applies]

/-- Every preset that applies is an accepted write of its own. -/
theorem logs_setAll (hart : Hart) (presets : List Preset) :
    hart.Logs ((presets.filter Preset.applies).map fun preset => (preset.csr, preset.written))
      (hart.setAll presets) := by
  induction presets generalizing hart with
  | nil => exact .refl hart
  | cons preset rest ih =>
    rw [setAll, List.foldl_cons, ← setAll]
    cases applies : preset.applies with
    | true =>
      have now : hart.Logs [(preset.csr, preset.written)] (hart.set preset) := by
        rw [set, if_pos applies]
        exact ⟨Array.toList_push, rfl, rfl⟩
      rw [List.filter_cons_of_pos applies]
      exact now.trans (ih (hart.set preset))
    | false =>
      have unset : hart.set preset = hart := if_neg (by simp [applies])
      rw [List.filter_cons_of_neg (by simp [applies]), unset]
      exact ih hart

end Hart

namespace HartM

variable {α β : Type} {file : CsrFile} {hart : Hart}

theorem read_eq {csr : Csr} {value : Word} (found : hart.csrs.value? csr = some value) :
    read csr hart = .ok value hart := by
  have present : hart.value? csr = some value := found
  simp only [read, present]

/-- Where presets can be written, an action writes them in turn, does nothing else, and ends with
the given result. -/
def Sets (action : HartM α) (file : CsrFile) (result : α) (presets : List Preset) : Prop :=
  ∀ hart : Hart, hart.csrs = file → file.Takes presets →
    action hart = .ok result (hart.setAll presets)

namespace Sets

variable {outcome : β} {presets : List Preset} {next : Unit → HartM β}

theorem pure (result : α) (file : CsrFile) : Sets (Pure.pure result) file result [] :=
  fun _ _ _ => rfl

/-- What is known from the registers goes before the presets. -/
theorem known {action : HartM α} {next : α → HartM β} {result : α}
    (given : ∀ hart : Hart, hart.csrs = file → action hart = .ok result hart)
    (follows : Sets (next result) file outcome presets) :
    Sets (action >>= next) file outcome presets := by
  intro hart registers takes
  rw [bind_ok (given hart registers)]
  exact follows hart registers takes

/-- A preset that applies is written before the others. -/
theorem cons {preset : Preset} (applies : preset.applies = true)
    (follows : Sets (next ()) (file.preset preset) outcome presets) :
    Sets (write preset.csr preset.written >>= next) file outcome (preset :: presets) := by
  rintro hart rfl ⟨ready, takes⟩
  obtain ⟨register, found, unlocked⟩ := CsrFile.accepts_iff.mp (ready applies)
  have written : hart.csrs.write preset.csr preset.written =
      hart.csrs.insert preset.csr (register.store preset.written) :=
    CsrFile.write_of_accepts found unlocked preset.written
  have stored : hart.csrs.preset preset = (hart.set preset).csrs := by
    rw [CsrFile.preset, Hart.set, if_pos applies, if_pos applies]
  have accepted : (hart.note (.write preset.csr preset.written)).store? preset.csr preset.written =
      some (register.value, hart.set preset) := by
    refine Hart.store?_eq_some_iff.mpr ⟨register, found, unlocked, rfl, ?_⟩
    rw [Hart.set, if_pos applies, written]
    rfl
  have ran : write preset.csr preset.written hart = .ok () (hart.set preset) := by
    simp only [write, accepted]
  rw [bind_ok ran]
  exact follows (hart.set preset) stored.symm takes

/-- A preset that does not apply is passed over. -/
theorem skip {action : HartM β} {preset : Preset} (idle : preset.applies = false)
    (follows : Sets action file outcome presets) :
    Sets action file outcome (preset :: presets) := by
  rintro hart rfl ⟨-, takes⟩
  have kept : hart.csrs.preset preset = hart.csrs := if_neg (by simp [idle])
  have unset : hart.set preset = hart := if_neg (by simp [idle])
  rw [kept] at takes
  rw [Hart.setAll, List.foldl_cons, unset]
  exact follows hart rfl takes

/-- One action writes some presets, and what follows it writes others. -/
theorem append {action : HartM α} {next : α → HartM β} {result : α} {first second : List Preset}
    (early : Sets action file result first)
    (late : Sets (next result) (file.presetAll first) outcome second) :
    Sets (action >>= next) file outcome (first ++ second) := by
  rintro hart rfl takes
  obtain ⟨now, later⟩ := CsrFile.takes_append.mp takes
  rw [bind_ok (early hart rfl now), Hart.setAll_append]
  refine late (hart.setAll first) (Hart.csrs_setAll hart first) ?_
  rwa [(hart.csrs.evolves_presetAll first).takes_iff]

/-- Presets none of which applies are passed over. -/
theorem skipAll {action : HartM β} {idle : List Preset}
    (unused : ∀ preset ∈ idle, preset.applies = false)
    (follows : Sets action file outcome presets) : Sets action file outcome (idle ++ presets) := by
  induction idle with
  | nil => exact follows
  | cons preset rest ih =>
    exact .skip (unused preset List.mem_cons_self)
      (ih fun other member => unused other (List.mem_cons_of_mem preset member))

/-- The last preset that applies. -/
theorem last {preset : Preset} {idle : List Preset} (applies : preset.applies = true)
    (unused : ∀ preset ∈ idle, preset.applies = false) :
    Sets (write preset.csr preset.written) file () (preset :: idle) := by
  have rest : Sets (Pure.pure ()) (file.preset preset) () (idle ++ []) := skipAll unused (pure () _)
  rw [List.append_nil] at rest
  have ended := cons applies rest
  rwa [bind_pure] at ended

/-- An action that is followed by an answer. -/
theorem answering {action : HartM α} {result : α} (answer : β)
    (sets : Sets action file result presets) :
    Sets (action >>= fun _ => Pure.pure answer) file answer presets := by
  have ended := @append α β file answer action (fun _ => Pure.pure answer) result presets [] sets
    (pure answer _)
  rwa [List.append_nil] at ended

end Sets

end HartM

end HartBoot
