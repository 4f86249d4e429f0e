import HartBoot.ModeSwitch
import HartBoot.Proofs.Establishment
import HartBoot.Proofs.Fields

/-! # Leaving machine mode

A hart that leaves machine mode first writes a table of presets, and the last thing it does there is
to enter the next boot stage or to wait for good. Which of the two it is depends on the mode that is
asked for, on the extensions of the hart, and on whether its status keeps the mode. A mode that the
hart does not have costs no write at all, and a status that does not keep the mode is the only
register that was written.
-/

namespace HartBoot

/-- Accesses that end what a hart does in machine mode. -/
def Access.isTerminal : Access → Bool
  | .wait | .enter _ _ => true
  | _ => false

namespace Register

/-- What a register keeps in some of its bits depends on what is written to these bits. -/
theorem settle_and_congr (register : Register) {left right mask : Word}
    (same : left &&& mask = right &&& mask) :
    register.settle left &&& mask = register.settle right &&& mask := by
  have spread (written : Word) : register.settle written &&& mask =
      register.hardwired &&& mask ||| (written &&& mask) &&& register.writable := by
    apply BitVec.eq_of_getLsbD_eq
    intro position inside
    simp only [settle, BitVec.getLsbD_and, BitVec.getLsbD_or]
    cases mask.getLsbD position <;> simp
  rw [spread, spread, same]

/-- A status register keeps the mode that is written to its field for it. -/
def KeepsMode (status : Register) (mode : Word) : Prop :=
  Status.mpp.extract (status.settle (Status.mpp.insert status.value mode)) = mode

instance (status : Register) (mode : Word) : Decidable (status.KeepsMode mode) :=
  inferInstanceAs (Decidable (_ = _))

end Register

namespace Misa

/-- Whether the register advertises a mode. Machine mode is always there. -/
def hasMode (misa : Word) : PrivilegeMode → Bool
  | .machine => true
  | .supervisor => has misa 'S'
  | .user => has misa 'U'

end Misa

namespace ModeSwitch

/-- The mode that is asked for exists and is implemented. -/
def Implemented (request : ModeSwitch) (misa : Word) : Prop :=
  request.mode = 0 ∧ Misa.has misa 'U' = true ∨ request.mode = 1 ∧ Misa.has misa 'S' = true ∨
    request.mode = 3

instance (request : ModeSwitch) (misa : Word) : Decidable (request.Implemented misa) :=
  inferInstanceAs (Decidable (_ ∧ _ ∨ _ ∧ _ ∨ _))

theorem implemented_iff (request : ModeSwitch) (misa : Word) : request.Implemented misa ↔
    ∃ mode, PrivilegeMode.ofBits? request.mode = some mode ∧ Misa.hasMode misa mode = true := by
  simp only [PrivilegeMode.ofBits?_eq_some_iff, Implemented]
  constructor
  · rintro (⟨asked, there⟩ | ⟨asked, there⟩ | asked)
    · exact ⟨.user, asked, there⟩
    · exact ⟨.supervisor, asked, there⟩
    · exact ⟨.machine, asked, rfl⟩
  · rintro ⟨mode, asked, there⟩
    cases mode with
    | user => exact .inl ⟨asked, there⟩
    | supervisor => exact .inr (.inl ⟨asked, there⟩)
    | machine => exact .inr (.inr asked)

end ModeSwitch

namespace ValidSwitch

/-- The status from which the hart returns to the mode. -/
def statusPreset (request : ValidSwitch) (misa current : Word) : Preset where
  csr := .mstatus
  written := request.status (Misa.has misa 'H') current

/-- The registers of the supervisor start with traps to the entry point and with all else off. -/
def supervisorPresets (request : ValidSwitch) : List Preset :=
  let applies := request.mode == .supervisor
  [{ csr := .stvec, written := request.entry, applies },
    { csr := .sscratch, written := 0, applies }, { csr := .sie, written := 0, applies },
    { csr := .satp, written := 0, applies }]

/-- So do the registers of a user that has interrupts. -/
def userPresets (request : ValidSwitch) (misa : Word) : List Preset :=
  let applies := request.mode == .user && Misa.has misa 'N'
  [{ csr := .utvec, written := request.entry, applies },
    { csr := .uscratch, written := 0, applies }, { csr := .uie, written := 0, applies }]

/-- The entry point, and the registers of the mode itself. -/
def handover (request : ValidSwitch) (misa : Word) : List Preset :=
  { csr := .mepc, written := request.entry }
    :: (request.supervisorPresets ++ request.userPresets misa)

/-- No register is set up twice. -/
theorem nodup_handover (request : ValidSwitch) (misa current : Word) :
    ((request.statusPreset misa current :: request.handover misa).map Preset.csr).Nodup :=
  show [Csr.mstatus, .mepc, .stvec, .sscratch, .sie, .satp, .utvec, .uscratch, .uie].Nodup by
    decide

/-- The mode is the only part of the request that decides whether the status keeps the mode. -/
theorem extract_settle_status (request : ValidSwitch) (status : Register) (hypervisor : Bool) :
    Status.mpp.extract (status.settle (request.status hypervisor status.value)) =
      Status.mpp.extract (status.settle (Status.mpp.insert status.value request.mode.bits)) := by
  apply Field.extract_congr
  apply Register.settle_and_congr
  have interrupts : Status.mpie.mask &&& Status.mpp.mask = 0 := by decide
  have guests : Status.mpv.mask &&& Status.mpp.mask = 0 := by decide
  rw [ValidSwitch.status]
  cases hypervisor with
  | false => exact Field.insert_and_of_disjoint interrupts _ _
  | true =>
    rw [if_pos rfl, Field.insert_and_of_disjoint guests, Field.insert_and_of_disjoint interrupts]

end ValidSwitch

namespace HartM

variable {file : CsrFile} {misa : Word} {hart : Hart}

/-- Checking a request changes nothing. -/
theorem validate_eq (found : hart.csrs.value? .misa = some misa) (request : ModeSwitch) :
    request.validate hart = .ok (match PrivilegeMode.ofBits? request.mode with
      | none => .error (.unsupportedMode request.mode)
      | some mode =>
        if Misa.hasMode misa mode = true then
          .ok { entry := request.entry, mode, virtualized := request.virtualized }
        else .error (.missingExtension mode)) hart := by
  have answer (mode : PrivilegeMode) (implemented : Bool) :
      (if implemented = true then
        pure (.ok { entry := request.entry, mode, virtualized := request.virtualized })
      else pure (.error (.missingExtension mode)) : HartM (Except SwitchError ValidSwitch)) hart =
        .ok (if implemented = true then
          .ok { entry := request.entry, mode, virtualized := request.virtualized }
        else .error (.missingExtension mode)) hart := by
    cases implemented <;> rfl
  rw [ModeSwitch.validate]
  cases PrivilegeMode.ofBits? request.mode with
  | none => rfl
  | some mode =>
    cases mode with
    | machine => exact answer .machine true
    | supervisor => exact (bind_ok (hasExtension_eq found 'S') _).trans (answer .supervisor _)
    | user => exact (bind_ok (hasExtension_eq found 'U') _).trans (answer .user _)

/-- The registers of the mode itself are set up as the table says. -/
theorem sets_prepareMode (found : file.value? .misa = some misa) (request : ValidSwitch) :
    Sets request.prepareMode file () (request.supervisorPresets ++ request.userPresets misa) := by
  obtain ⟨entry, mode, virtualized⟩ := request
  cases mode with
  | supervisor =>
    refine .cons rfl (.cons rfl (.cons rfl (.last rfl ?_)))
    simp [ValidSwitch.userPresets]
  | user =>
    refine .skipAll (by simp [ValidSwitch.supervisorPresets]) ?_
    refine .known (fun hart registers => hasExtension_eq (registers ▸ found) 'N') ?_
    cases interruptible : Misa.has misa 'N' with
    | true =>
      rw [if_pos rfl]
      exact .cons interruptible (.cons interruptible (.last interruptible (by simp)))
    | false =>
      rw [if_neg Bool.false_ne_true]
      exact .skip interruptible (.skip interruptible (.skip interruptible (.pure () file)))
  | machine =>
    refine .skipAll (by simp [ValidSwitch.supervisorPresets]) ?_
    exact .skip rfl (.skip rfl (.skip rfl (.pure () file)))

/-- Setting a hart up begins with its status. What comes next depends on the mode that the status
is left with. -/
theorem sets_prepare {status : Register} (advertised : file.value? .misa = some misa)
    (found : file[Csr.mstatus]? = some status) (unlocked : status.readOnly = false)
    (request : ValidSwitch) {outcome : Except SwitchError PreparedSwitch} {presets : List Preset}
    (follows : ∀ word, word = Status.mpp.extract
        (status.settle (Status.mpp.insert status.value request.mode.bits)) →
      Sets (if word = request.mode.bits then do
          write .mepc request.entry
          request.prepareMode
          return .ok { mode := request.mode }
        else return .error (.inconsistent .mstatus request.mode.bits word))
        (file.preset (request.statusPreset misa status.value)) outcome presets) :
    Sets request.prepare file outcome (request.statusPreset misa status.value :: presets) := by
  have stored : (file.preset (request.statusPreset misa status.value)).value? .mstatus =
      some (status.settle (request.status (Misa.has misa 'H') status.value)) :=
    CsrFile.value?_of_some (CsrFile.getElem?_write_self found unlocked _)
  refine .known (fun hart registers => hasExtension_eq (registers ▸ advertised) 'H') ?_
  refine .known (fun hart registers => read_eq (registers ▸ CsrFile.value?_of_some found)) ?_
  refine .cons rfl (.known (fun hart registers => read_eq (registers ▸ stored)) ?_)
  exact follows _ (request.extract_settle_status status (Misa.has misa 'H'))

/-- A status that keeps the mode is followed by the entry point and the registers of the mode. -/
theorem sets_prepare_of_keepsMode {status : Register} (advertised : file.value? .misa = some misa)
    (found : file[Csr.mstatus]? = some status) (unlocked : status.readOnly = false)
    {request : ValidSwitch} (keeps : status.KeepsMode request.mode.bits) :
    Sets request.prepare file (.ok { mode := request.mode })
      (request.statusPreset misa status.value :: request.handover misa) := by
  refine sets_prepare advertised found unlocked request fun word same => ?_
  have later : ((file.preset (request.statusPreset misa status.value)).preset
      { csr := .mepc, written := request.entry }).value? .misa = some misa := by
    rw [CsrFile.value?_preset_of_ne (show Csr.misa ≠ .mepc by decide),
      CsrFile.value?_preset_of_ne (show Csr.misa ≠ .mstatus by decide)]
    exact advertised
  rw [if_pos (same.trans keeps)]
  exact .cons rfl ((sets_prepareMode later request).answering _)

/-- A status that does not keep the mode is reported. -/
theorem sets_prepare_of_not_keepsMode {status : Register}
    (advertised : file.value? .misa = some misa) (found : file[Csr.mstatus]? = some status)
    (unlocked : status.readOnly = false) {request : ValidSwitch}
    (loses : ¬status.KeepsMode request.mode.bits) :
    Sets request.prepare file (.error (.inconsistent .mstatus request.mode.bits
      (Status.mpp.extract (status.settle (Status.mpp.insert status.value request.mode.bits)))))
      [request.statusPreset misa status.value] := by
  refine sets_prepare advertised found unlocked request fun word same => ?_
  rw [if_neg (same ▸ loses), same]
  exact .pure _ _

/-- A request for a mode that the hart does not have is refused, and changes nothing. -/
theorem prepare_of_not_implemented (advertised : hart.csrs.value? .misa = some misa)
    {request : ModeSwitch} (missing : ¬request.Implemented misa) :
    ∃ error, request.prepare hart = .ok (.error error) hart := by
  rw [ModeSwitch.implemented_iff] at missing
  rw [ModeSwitch.prepare, bind_ok (validate_eq advertised request)]
  cases asked : PrivilegeMode.ofBits? request.mode with
  | none => exact ⟨_, rfl⟩
  | some mode =>
    have absent : Misa.hasMode misa mode = false := by
      rw [← Bool.not_eq_true]
      exact fun there => missing ⟨mode, asked, there⟩
    simp only [absent, Bool.false_eq_true, if_false]
    exact ⟨_, rfl⟩

/-- A request for a mode that the hart has is prepared. -/
theorem prepare_of_implemented (advertised : hart.csrs.value? .misa = some misa)
    {request : ModeSwitch} (implemented : request.Implemented misa) :
    ∃ valid : ValidSwitch, valid.entry = request.entry ∧ valid.mode.bits = request.mode ∧
      Misa.hasMode misa valid.mode = true ∧ request.prepare hart = valid.prepare hart := by
  obtain ⟨mode, asked, there⟩ := (request.implemented_iff misa).mp implemented
  refine ⟨⟨request.entry, mode, request.virtualized⟩, rfl,
    ((PrivilegeMode.ofBits?_eq_some_iff _ _).mp asked).symm, there, ?_⟩
  rw [ModeSwitch.prepare, bind_ok (validate_eq advertised request)]
  simp only [asked, there, if_true]

end HartM

/-- A hart has the registers that it needs to leave machine mode. -/
structure CsrFile.CanDepart (misa : Word) (file : CsrFile) : Prop where
  advertised : file.value? .misa = some misa
  numbered : (file.value? .mhartid).isSome = true
  status : file.accepts .mstatus = true
  entry : file.accepts .mepc = true
  supervisor : Misa.has misa 'S' = true →
    ∀ csr ∈ [Csr.stvec, .sscratch, .sie, .satp], file.accepts csr = true
  user : Misa.has misa 'N' = true → ∀ csr ∈ [Csr.utvec, .uscratch, .uie], file.accepts csr = true

/-- The registers of a mode that the hart implements are there to be set up. -/
theorem CsrFile.CanDepart.takes {misa : Word} {file : CsrFile} (able : file.CanDepart misa)
    {request : ValidSwitch} (implemented : Misa.hasMode misa request.mode = true) (current : Word) :
    file.Takes (request.statusPreset misa current :: request.handover misa) := by
  rw [CsrFile.takes_iff, List.forall_mem_cons]
  refine ⟨fun _ => able.status, ?_⟩
  rw [ValidSwitch.handover, List.forall_mem_cons, List.forall_mem_append]
  refine ⟨fun _ => able.entry, fun preset member applies => ?_, fun preset member applies => ?_⟩
  · have condition : preset.applies = (request.mode == .supervisor) := by
      simp only [ValidSwitch.supervisorPresets, List.mem_cons, List.not_mem_nil, or_false] at member
      rcases member with rfl | rfl | rfl | rfl <;> rfl
    have asked : request.mode = .supervisor := beq_iff_eq.mp (condition.symm.trans applies)
    rw [asked] at implemented
    exact able.supervisor implemented preset.csr (List.mem_map_of_mem member)
  · have condition : preset.applies = (request.mode == .user && Misa.has misa 'N') := by
      simp only [ValidSwitch.userPresets, List.mem_cons, List.not_mem_nil, or_false] at member
      rcases member with rfl | rfl | rfl <;> rfl
    have interruptible := (Bool.and_eq_true_iff.mp (condition.symm.trans applies)).2
    exact able.user interruptible preset.csr (List.mem_map_of_mem member)

namespace BootM

variable {machine : Machine} {misa : Word} {request : ModeSwitch}

/-- A hart that cannot be set up reports why and waits. -/
theorem switchMode_of_error {error : SwitchError} {hart : Hart}
    (refused : request.prepare machine.hart = .ok (.error error) hart)
    (numbered : (hart.csrs.value? .mhartid).isSome = true) (arg0 arg1 : Word) :
    ∃ final, switchMode request arg0 arg1 machine = .error .halted final ∧
      final.hart = hart.note .wait := by
  obtain ⟨id, found⟩ := Option.isSome_iff_exists.mp numbered
  have stayed : onHart request.prepare machine = .ok (.error error) { machine with hart } :=
    onHart_eq_ok_iff.mpr ⟨hart, refused, rfl⟩
  have named : onHart HartM.hartId { machine with hart } = .ok id { machine with hart } :=
    onHart_eq_ok_iff.mpr ⟨hart, HartM.read_eq found, rfl⟩
  obtain ⟨terminal, reported⟩ := diagnose_ok (bind_ok named fun word => do
    let mode := request.mode.toNat
    let entry := hex request.entry.toNat
    let reason := error.message
    return s!"hart{word.toNat}: cannot switch to mode {mode} at {entry}: {reason}")
    .error switchTarget
  refine ⟨⟨hart.note .wait, machine.area, { machine.shared with terminal }⟩, ?_, rfl⟩
  rw [switchMode, bind_ok stayed]
  exact bind_ok reported _

/-- A hart that is set up enters. -/
theorem switchMode_of_ok {prepared : PreparedSwitch} {hart : Hart} {entry : Word}
    (ready : request.prepare machine.hart = .ok (.ok prepared) hart)
    (located : hart.csrs.value? .mepc = some entry) (arg0 arg1 : Word) :
    switchMode request arg0 arg1 machine =
      .error (.entered entry arg0 arg1) { machine with hart := hart.note (.enter arg0 arg1) } := by
  have prepares : onHart request.prepare machine = .ok (.ok prepared) { machine with hart } :=
    onHart_eq_ok_iff.mpr ⟨hart, ready, rfl⟩
  have present : hart.value? .mepc = some entry := located
  rw [switchMode, bind_ok prepares]
  refine onHart_eq_error_iff.mpr ⟨hart.note (.enter arg0 arg1), ?_, rfl⟩
  simp only [PreparedSwitch.commit, HartM.enter, present]

/-- The status keeps the mode: the hart enters, and nothing of what it writes on the way disturbs
its status or its program counter. -/
theorem switchMode_of_keepsMode (able : machine.hart.csrs.CanDepart misa) {status entry : Register}
    (found : machine.hart.csrs[Csr.mstatus]? = some status) (unlocked : status.readOnly = false)
    (located : machine.hart.csrs[Csr.mepc]? = some entry) (implemented : request.Implemented misa)
    (keeps : status.KeepsMode request.mode) (arg0 arg1 : Word) :
    ∃ final steps, switchMode request arg0 arg1 machine =
        .error (.entered (entry.settle request.entry) arg0 arg1) final ∧
      final.hart.trace.toList = machine.hart.trace.toList ++ steps ++ [.enter arg0 arg1] ∧
      (∀ access ∈ steps, access.isTerminal = false) ∧
      (final.hart.csrs.value? .mstatus).map Status.mpp.extract = some request.mode ∧
      final.hart.csrs.value? .mepc = some (entry.settle request.entry) := by
  obtain ⟨valid, same, asked, there, prepares⟩ :=
    HartM.prepare_of_implemented able.advertised implemented
  rw [← asked] at keeps
  let presets := valid.statusPreset misa status.value :: valid.handover misa
  have takes : machine.hart.csrs.Takes presets := able.takes there status.value
  have distinct : (presets.map Preset.csr).Nodup := valid.nodup_handover misa status.value
  have prepared := HartM.sets_prepare_of_keepsMode able.advertised found unlocked keeps
    machine.hart rfl takes
  have kept : (machine.hart.setAll presets).csrs.value? .mstatus =
      some (status.settle (valid.status (Misa.has misa 'H') status.value)) := by
    obtain ⟨register, present, -, stored⟩ := takes.exists_store distinct List.mem_cons_self rfl
    obtain rfl : register = status := Option.some.inj (present.symm.trans found)
    rw [Hart.csrs_setAll]
    exact CsrFile.value?_of_some stored
  have addressed : (machine.hart.setAll presets).csrs.value? .mepc =
      some (entry.settle request.entry) := by
    obtain ⟨register, present, -, stored⟩ :=
      takes.exists_store distinct (List.mem_cons_of_mem _ List.mem_cons_self) rfl
    obtain rfl : register = entry := Option.some.inj (present.symm.trans located)
    rw [Hart.csrs_setAll, ← same]
    exact CsrFile.value?_of_some stored
  refine ⟨_, (presets.filter Preset.applies).map Preset.access,
    switchMode_of_ok (prepares.trans prepared) addressed arg0 arg1, ?_, ?_, ?_, addressed⟩
  · rw [← Hart.trace_setAll machine.hart presets]
    exact Array.toList_push
  · intro access member
    obtain ⟨preset, -, rfl⟩ := List.mem_map.mp member
    rfl
  · have found : ((machine.hart.setAll presets).note (.enter arg0 arg1)).csrs.value? .mstatus =
        some _ := kept
    rw [found, Option.map_some, valid.extract_settle_status, keeps, asked]

/-- The status loses the mode: the hart waits, and has written its status alone. -/
theorem switchMode_of_not_keepsMode (able : machine.hart.csrs.CanDepart misa) {status : Register}
    (found : machine.hart.csrs[Csr.mstatus]? = some status) (unlocked : status.readOnly = false)
    (implemented : request.Implemented misa) (loses : ¬status.KeepsMode request.mode)
    (arg0 arg1 : Word) :
    ∃ final written, switchMode request arg0 arg1 machine = .error .halted final ∧
      final.hart = (machine.hart.set { csr := .mstatus, written }).note .wait := by
  obtain ⟨valid, -, asked, there, prepares⟩ :=
    HartM.prepare_of_implemented able.advertised implemented
  rw [← asked] at loses
  have takes : machine.hart.csrs.Takes [valid.statusPreset misa status.value] :=
    ⟨fun _ => able.status, trivial⟩
  have refused := HartM.sets_prepare_of_not_keepsMode able.advertised found unlocked loses
    machine.hart rfl takes
  have numbered : ((machine.hart.setAll [valid.statusPreset misa status.value]).csrs.value?
      .mhartid).isSome = true := by
    rw [Hart.csrs_setAll, CsrFile.value?_presetAll_of_unnamed (show _ ∉ [Csr.mstatus] by decide)]
    exact able.numbered
  obtain ⟨final, stayed, waits⟩ := switchMode_of_error (prepares.trans refused) numbered arg0 arg1
  exact ⟨final, _, stayed, waits⟩

/-- On a hart with the registers for it, leaving machine mode ends with one terminal access. The hart
enters the next boot stage if and only if it implements the mode that is asked for and its status
keeps that mode. It then still has the mode in its status, and goes where its program counter keeps
the entry point. In every other case it waits for good, with no register written if it does not
implement the mode, and with none but its status written if that does not keep the mode. -/
theorem switchMode_departs (able : machine.hart.csrs.CanDepart misa) (request : ModeSwitch)
    (arg0 arg1 : Word) :
    ∃ status entry : Register, machine.hart.csrs[Csr.mstatus]? = some status ∧
      machine.hart.csrs[Csr.mepc]? = some entry ∧
      ∃ stop final steps last, switchMode request arg0 arg1 machine = .error stop final ∧
        final.hart.trace.toList = machine.hart.trace.toList ++ steps ++ [last] ∧
        (∀ access ∈ steps, access.isTerminal = false) ∧
        (last = .enter arg0 arg1 ↔
          request.Implemented misa ∧ status.KeepsMode request.mode) ∧
        (last = .enter arg0 arg1 → stop = .entered (entry.settle request.entry) arg0 arg1 ∧
          (final.hart.csrs.value? .mstatus).map Status.mpp.extract = some request.mode ∧
          final.hart.csrs.value? .mepc = some (entry.settle request.entry)) ∧
        (last ≠ .enter arg0 arg1 → last = .wait ∧ stop = .halted ∧
          (¬request.Implemented misa → steps = [] ∧ final.hart = machine.hart.note .wait) ∧
          (request.Implemented misa → ∃ written, steps = [.write .mstatus written] ∧
            final.hart.csrs = machine.hart.csrs.write .mstatus written ∧
            final.hart.writes = machine.hart.writes.push (.mstatus, written))) := by
  obtain ⟨status, found, unlocked⟩ := CsrFile.accepts_iff.mp able.status
  obtain ⟨entry, located, -⟩ := CsrFile.accepts_iff.mp able.entry
  refine ⟨status, entry, found, located, ?_⟩
  by_cases implemented : request.Implemented misa
  · by_cases keeps : status.KeepsMode request.mode
    · obtain ⟨final, steps, entered, trace, working, mode, address⟩ :=
        switchMode_of_keepsMode able found unlocked located implemented keeps arg0 arg1
      exact ⟨_, final, steps, _, entered, trace, working, iff_of_true rfl ⟨implemented, keeps⟩,
        fun _ => ⟨rfl, mode, address⟩, fun other => absurd rfl other⟩
    · obtain ⟨final, written, halted, left⟩ :=
        switchMode_of_not_keepsMode able found unlocked implemented keeps arg0 arg1
      refine ⟨_, final, [.write .mstatus written], .wait, halted, ?_, ?_, ?_, ?_, fun _ => ?_⟩
      · rw [left]
        simp [Hart.note, Hart.set]
      · simp [Access.isTerminal]
      · simp [keeps]
      · simp
      · refine ⟨rfl, rfl, fun missing => absurd implemented missing, fun _ => ⟨written, rfl, ?_⟩⟩
        rw [left]
        exact ⟨rfl, rfl⟩
  · obtain ⟨error, refused⟩ := HartM.prepare_of_not_implemented able.advertised implemented
    obtain ⟨final, halted, left⟩ := switchMode_of_error refused able.numbered arg0 arg1
    refine ⟨_, final, [], .wait, halted, ?_, ?_, ?_, ?_, fun _ => ?_⟩
    · rw [left]
      simp [Hart.note]
    · simp
    · simp [implemented]
    · simp
    · exact ⟨rfl, rfl, fun _ => ⟨rfl, left⟩, fun present => absurd present implemented⟩

end BootM

/-- A machine whose hart has supervisor mode and a status that has room for one bit of the mode. -/
def Machine.stuckMode : Machine where
  hart := Hart.numbered.implementReadOnly .misa 0x8000000000040100
    |>.implementAll [(.mstatus, 0x1880, 0x888), (.mepc, 0, ~~~1), (.stvec, 0, ~~~2),
      (.sscratch, 0x55, Word.ones), (.sie, 0x222, Word.ones), (.satp, 8 <<< 60, Word.ones)]
  area := .blank
  shared := {}

theorem CsrFile.canDepart_stuckMode : CanDepart 0x8000000000040100 Machine.stuckMode.hart.csrs := by
  constructor <;> decide +kernel

/-- The same machine with room for both bits of the mode. -/
def Machine.settableMode : Machine :=
  { Machine.stuckMode with hart := Machine.stuckMode.hart.implement .mstatus 0x1880 0x1888 }

theorem CsrFile.canDepart_settableMode :
    CanDepart 0x8000000000040100 Machine.settableMode.hart.csrs := by
  constructor <;> decide +kernel

namespace BootM

/-- A hart that can hold the mode enters supervisor mode, with the registers of the mode set up. If
the upper bit of the mode is stuck, the hart waits instead, but it can return to machine mode. -/
theorem switchMode_departs_stuckMode :
    CsrFile.CanDepart 0x8000000000040100 Machine.settableMode.hart.csrs ∧
      CsrFile.CanDepart 0x8000000000040100 Machine.stuckMode.hart.csrs ∧
      (∃ final, switchMode ⟨0x80200001, 1, false⟩ 1 2 Machine.settableMode =
          .error (.entered 0x80200000 1 2) final ∧
        (final.hart.csrs.value? .mstatus).map Status.mpp.extract = some 1 ∧
        final.hart.csrs.value? .mepc = some 0x80200000 ∧
        final.hart.csrs.value? .stvec = some 0x80200001 ∧
        final.hart.csrs.value? .sscratch = some 0 ∧ final.hart.csrs.value? .sie = some 0 ∧
        final.hart.csrs.value? .satp = some 0) ∧
      (∃ final, switchMode ⟨0x80200001, 3, false⟩ 1 2 Machine.stuckMode =
        .error (.entered 0x80200000 1 2) final) ∧
      ∃ final, switchMode ⟨0x80200001, 1, false⟩ 1 2 Machine.stuckMode = .error .halted final := by
  have able := CsrFile.canDepart_stuckMode
  have settable := CsrFile.canDepart_settableMode
  have known : Machine.stuckMode.hart.csrs[Csr.mstatus]? =
      some { value := 0x1880, writable := 0x888 } := by decide +kernel
  have address : Machine.stuckMode.hart.csrs[Csr.mepc]? =
      some { value := 0, writable := ~~~1 } := by decide +kernel
  have room : Machine.settableMode.hart.csrs[Csr.mstatus]? =
      some { value := 0x1880, writable := 0x1888 } := by decide +kernel
  have sameAddress : Machine.settableMode.hart.csrs[Csr.mepc]? =
      some { value := 0, writable := ~~~1 } := by decide +kernel
  refine ⟨settable, able, ?_, ?_, ?_⟩
  · obtain ⟨status, entry, found, located, stop, final, steps, last, ended, -, -, decided, enters,
      -⟩ := switchMode_departs settable ⟨0x80200001, 1, false⟩ 1 2
    obtain rfl := Option.some.inj (found.symm.trans room)
    obtain rfl := Option.some.inj (located.symm.trans sameAddress)
    obtain ⟨rfl, mode, program⟩ := enters (decided.mpr (by decide +kernel))
    have left : finalMachine (switchMode ⟨0x80200001, 1, false⟩ 1 2) Machine.settableMode =
        final := by
      rw [finalMachine, ended]
    refine ⟨final, ended, mode, program, ?_⟩
    rw [← left]
    decide +kernel
  · obtain ⟨status, entry, found, located, stop, final, steps, last, ended, -, -, decided, enters,
      -⟩ := switchMode_departs able ⟨0x80200001, 3, false⟩ 1 2
    obtain rfl := Option.some.inj (found.symm.trans known)
    obtain rfl := Option.some.inj (located.symm.trans address)
    obtain ⟨rfl, -⟩ := enters (decided.mpr (by decide +kernel))
    exact ⟨final, ended⟩
  · obtain ⟨status, entry, found, -, stop, final, steps, last, ended, -, -, decided, -, waits⟩ :=
      switchMode_departs able ⟨0x80200001, 1, false⟩ 1 2
    obtain rfl := Option.some.inj (found.symm.trans known)
    obtain ⟨-, rfl, -⟩ := waits fun enters => absurd (decided.mp enters) (by decide +kernel)
    exact ⟨final, ended⟩

end BootM

end HartBoot
