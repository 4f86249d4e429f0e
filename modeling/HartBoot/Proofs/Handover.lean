import HartBoot.Proofs.Departure

/-! # The state that a prepared switch hands over

A hart that is set up for a mode has three fields of its status replaced, one inside the other, and
starts the mode with a table of registers. What ends up in them depends on what each register keeps,
but not on the order of the writes. The status alone decides whether the table is written: if it
does not keep the mode, nothing but the status has changed.
-/

namespace HartBoot

namespace ValidSwitch

/-- A status is what an older one has to become for a return to the mode. It names the mode and keeps
interrupts off, it tells whether the mode is that of a guest if there are guests, and it is else
unchanged. -/
structure Returns (request : ValidSwitch) (misa old new : Word) : Prop where
  mode : Status.mpp.extract new = request.mode.bits
  interrupts : Status.mpie.extract new = 0
  guest : Misa.has misa 'H' = true →
    Status.mpv.extract new = if request.virtualized then 1 else 0
  others : ∀ position, Status.mpp.mask.getLsbD position = false →
    Status.mpie.mask.getLsbD position = false →
    (Misa.has misa 'H' = true → Status.mpv.mask.getLsbD position = false) →
    new.getLsbD position = old.getLsbD position

/-- The registers that the mode starts with, and what they are given. -/
def start (request : ValidSwitch) (misa : Word) : List (Csr × Word) :=
  (.mepc, request.entry) :: match request.mode with
    | .supervisor => [(.stvec, request.entry), (.sscratch, 0), (.sie, 0), (.satp, 0)]
    | .user =>
      if Misa.has misa 'N' then [(.utvec, request.entry), (.uscratch, 0), (.uie, 0)] else []
    | .machine => []

variable (request : ValidSwitch) (misa : Word)

theorem returns_status (old : Word) :
    request.Returns misa old (request.status (Misa.has misa 'H') old) := by
  have modeRoom : request.mode.bits &&& (Status.mpp.mask >>> Status.mpp.low) =
      request.mode.bits := by
    cases request.mode <;> decide +kernel
  have interruptRoom : (0 : Word) &&& (Status.mpie.mask >>> Status.mpie.low) = 0 := BitVec.zero_and
  let guest : Word := if request.virtualized then 1 else 0
  have guestRoom : guest &&& (Status.mpv.mask >>> Status.mpv.low) = guest := by
    simp only [guest]
    cases request.virtualized <;> decide +kernel
  have mpieMpp : Status.mpie.mask &&& Status.mpp.mask = 0 := by decide
  have mpvMpp : Status.mpv.mask &&& Status.mpp.mask = 0 := by decide
  have mpvMpie : Status.mpv.mask &&& Status.mpie.mask = 0 := by decide
  cases hypervisor : Misa.has misa 'H' with
  | false =>
    simp only [status, Bool.false_eq_true, if_false]
    constructor
    · rw [Field.extract_insert_of_disjoint mpieMpp, Field.extract_insert, modeRoom]
    · rw [Field.extract_insert, interruptRoom]
    · simp [hypervisor]
    · intro position mpp mpie _
      simp only [Field.getLsbD_insert, mpp, mpie, Bool.false_eq_true, if_false]
  | true =>
    simp only [status, if_true]
    constructor
    · rw [Field.extract_insert_of_disjoint mpvMpp, Field.extract_insert_of_disjoint mpieMpp,
        Field.extract_insert, modeRoom]
    · rw [Field.extract_insert_of_disjoint mpvMpie, Field.extract_insert, interruptRoom]
    · exact fun _ => (Field.extract_insert _ _ _).trans guestRoom
    · intro position mpp mpie mpv
      simp only [Field.getLsbD_insert, mpp, mpie, mpv hypervisor, Bool.false_eq_true, if_false]

/-- What the status has to become is settled in every bit. -/
theorem Returns.unique {request : ValidSwitch} {misa old left right : Word}
    (first : request.Returns misa old left) (second : request.Returns misa old right) :
    left = right := by
  apply BitVec.eq_of_getLsbD_eq
  intro position _
  cases mpp : Status.mpp.mask.getLsbD position with
  | true => exact Field.getLsbD_eq_of_extract_eq (first.mode.trans second.mode.symm) mpp
  | false =>
    cases mpie : Status.mpie.mask.getLsbD position with
    | true =>
      exact Field.getLsbD_eq_of_extract_eq (first.interrupts.trans second.interrupts.symm) mpie
    | false =>
      by_cases guests : Misa.has misa 'H' = true ∧ Status.mpv.mask.getLsbD position = true
      · obtain ⟨hypervisor, mpv⟩ := guests
        exact Field.getLsbD_eq_of_extract_eq
          ((first.guest hypervisor).trans (second.guest hypervisor).symm) mpv
      · have unguarded : Misa.has misa 'H' = true → Status.mpv.mask.getLsbD position = false :=
          fun hypervisor => Bool.eq_false_iff.mpr fun mpv => guests ⟨hypervisor, mpv⟩
        rw [first.others position mpp mpie unguarded, second.others position mpp mpie unguarded]

theorem returns_iff (old new : Word) :
    request.Returns misa old new ↔ new = request.status (Misa.has misa 'H') old := by
  constructor
  · exact fun returns => returns.unique (returns_status request misa old)
  · rintro rfl
    exact returns_status request misa old

/-- The mode starts with the presets of the handover that apply. -/
theorem mem_start_iff {entry : Csr × Word} : entry ∈ request.start misa ↔
    ∃ preset ∈ request.handover misa, preset.applies = true ∧
      (preset.csr, preset.written) = entry := by
  have listed : ((request.handover misa).filter Preset.applies).map
      (fun preset => (preset.csr, preset.written)) = request.start misa := by
    obtain ⟨address, mode, virtualized⟩ := request
    cases mode with
    | supervisor => rfl
    | user =>
      cases interruptible : Misa.has misa 'N' <;>
        simp [handover, supervisorPresets, userPresets, start, interruptible]
    | machine => rfl
  simp only [← listed, List.mem_map, List.mem_filter, and_assoc]

end ValidSwitch

namespace HartM

/-- A request is accepted as it stands, for a mode that it names. -/
theorem eq_of_validate {hart checked : Hart} {misa : Word}
    (advertised : hart.csrs.value? .misa = some misa) {request : ModeSwitch} {valid : ValidSwitch}
    (validated : request.validate hart = .ok (.ok valid) checked) :
    checked = hart ∧ valid.entry = request.entry ∧ valid.mode.bits = request.mode ∧
      valid.virtualized = request.virtualized := by
  rw [validate_eq advertised] at validated
  split at validated
  next => cases validated
  next mode asked =>
    split at validated
    next =>
      cases validated
      exact ⟨rfl, rfl, ((PrivilegeMode.ofBits?_eq_some_iff _ _).mp asked).symm, rfl⟩
    next => cases validated

variable {hart : Hart} {misa : Word} {status : Register} {request : ValidSwitch}

/-- A status that keeps the mode lets the hart be set up in full. -/
theorem prepare_of_keepsMode (advertised : hart.csrs.value? .misa = some misa)
    (found : hart.csrs[Csr.mstatus]? = some status) (unlocked : status.readOnly = false)
    (keeps : status.KeepsMode request.mode.bits)
    (ready : ∀ entry ∈ request.start misa, hart.csrs.accepts entry.1 = true) :
    ∃ final, request.prepare hart = .ok (.ok { mode := request.mode }) final ∧
      final.csrs[Csr.mstatus]? =
        some (status.store (request.status (Misa.has misa 'H') status.value)) ∧
      (∀ entry ∈ request.start misa, ∃ register, hart.csrs[entry.1]? = some register ∧
        final.csrs[entry.1]? = some (register.store entry.2)) ∧
      ∀ csr, csr ≠ Csr.mstatus → csr ∉ (request.start misa).map Prod.fst →
        final.csrs[csr]? = hart.csrs[csr]? := by
  let presets := request.statusPreset misa status.value :: request.handover misa
  have distinct := request.nodup_handover misa status.value
  have takes : hart.csrs.Takes presets := by
    rw [CsrFile.takes_iff, List.forall_mem_cons]
    refine ⟨fun _ => CsrFile.accepts_iff.mpr ⟨status, found, unlocked⟩, ?_⟩
    intro preset member applies
    exact ready _ ((request.mem_start_iff misa).mpr ⟨preset, member, applies, rfl⟩)
  have prepared := sets_prepare_of_keepsMode advertised found unlocked keeps hart rfl takes
  refine ⟨hart.setAll presets, prepared, ?_, ?_, ?_⟩
  · obtain ⟨register, present, -, stored⟩ := takes.exists_store distinct List.mem_cons_self rfl
    obtain rfl : register = status := Option.some.inj (present.symm.trans found)
    rw [Hart.csrs_setAll]
    exact stored
  · rintro entry listed
    obtain ⟨preset, member, applies, rfl⟩ := (request.mem_start_iff misa).mp listed
    obtain ⟨register, present, -, stored⟩ :=
      takes.exists_store distinct (List.mem_cons_of_mem _ member) applies
    rw [Hart.csrs_setAll]
    exact ⟨register, present, stored⟩
  · intro csr other unlisted
    rw [Hart.csrs_setAll]
    apply CsrFile.getElem?_presetAll_of_not
    rw [List.forall_mem_cons]
    refine ⟨fun _ same => other same.symm, ?_⟩
    rintro preset member applies rfl
    have listed := (request.mem_start_iff misa).mpr ⟨preset, member, applies, rfl⟩
    exact unlisted (List.mem_map_of_mem listed)

/-- A status that does not keep the mode is all that is written. -/
theorem prepare_of_not_keepsMode (advertised : hart.csrs.value? .misa = some misa)
    (found : hart.csrs[Csr.mstatus]? = some status) (unlocked : status.readOnly = false)
    (loses : ¬status.KeepsMode request.mode.bits) :
    let word := request.status (Misa.has misa 'H') status.value
    ∃ final, request.prepare hart = .ok (.error (.inconsistent .mstatus request.mode.bits
        (Status.mpp.extract (status.settle word)))) final ∧
      final.csrs[Csr.mstatus]? = some (status.store word) ∧
      ∀ csr, csr ≠ Csr.mstatus → final.csrs[csr]? = hart.csrs[csr]? := by
  intro word
  have takes : hart.csrs.Takes [request.statusPreset misa status.value] :=
    ⟨fun _ => CsrFile.accepts_iff.mpr ⟨status, found, unlocked⟩, trivial⟩
  have refused := sets_prepare_of_not_keepsMode advertised found unlocked loses hart rfl takes
  rw [← request.extract_settle_status] at refused
  refine ⟨_, refused, ?_, fun csr other => ?_⟩
  · rw [Hart.csrs_setAll]
    exact CsrFile.getElem?_write_self found unlocked _
  · rw [Hart.csrs_setAll]
    exact CsrFile.getElem?_write_of_ne _ other _

/-- A hart that accepts a request is always set up as far as its status goes along. The status is
written with all that the return needs, and keeps what it can of it. If it keeps the mode, every
register that the mode starts with keeps what it can too; if it does not, the mode that it holds
instead is reported. In both cases no other register changes. -/
theorem prepare_hands_over {checked : Hart} {request : ModeSwitch} {valid : ValidSwitch}
    (validated : request.validate hart = .ok (.ok valid) checked)
    (advertised : hart.csrs.value? .misa = some misa)
    (found : hart.csrs[Csr.mstatus]? = some status) (unlocked : status.readOnly = false)
    (ready : status.KeepsMode request.mode →
      ∀ entry ∈ valid.start misa, hart.csrs.accepts entry.1 = true) :
    checked = hart ∧ valid.entry = request.entry ∧ valid.mode.bits = request.mode ∧
      valid.virtualized = request.virtualized ∧
    ∃ word result final, valid.Returns misa status.value word ∧
      valid.prepare checked = .ok result final ∧
      final.csrs[Csr.mstatus]? = some (status.store word) ∧
      let kept := Status.mpp.extract (status.store word).value
      (kept = request.mode → result = .ok { mode := valid.mode } ∧
        (∀ entry ∈ valid.start misa, ∃ register, hart.csrs[entry.1]? = some register ∧
          final.csrs[entry.1]? = some (register.store entry.2)) ∧
        ∀ csr, csr ≠ Csr.mstatus → csr ∉ (valid.start misa).map Prod.fst →
          final.csrs[csr]? = hart.csrs[csr]?) ∧
      (kept ≠ request.mode → result = .error (.inconsistent .mstatus request.mode kept) ∧
        ∀ csr, csr ≠ Csr.mstatus → final.csrs[csr]? = hart.csrs[csr]?) := by
  obtain ⟨rfl, entry, mode, guest⟩ := eq_of_validate advertised validated
  refine ⟨rfl, entry, mode, guest, valid.status (Misa.has misa 'H') status.value, ?_⟩
  have returns := valid.returns_status misa status.value
  have same := valid.extract_settle_status status (Misa.has misa 'H')
  rw [← mode] at ready ⊢
  by_cases keeps : status.KeepsMode valid.mode.bits
  · obtain ⟨final, ran, left, started, others⟩ :=
      prepare_of_keepsMode advertised found unlocked keeps (ready keeps)
    exact ⟨_, final, returns, ran, left, fun _ => ⟨rfl, started, others⟩,
      fun other => absurd (same.trans keeps) other⟩
  · obtain ⟨final, ran, left, others⟩ :=
      prepare_of_not_keepsMode advertised found unlocked keeps
    exact ⟨_, final, returns, ran, left, fun reads => absurd (same.symm.trans reads) keeps,
      fun _ => ⟨rfl, others⟩⟩

end HartM

/-- A hart with guests, whose status has room for all fields of a return, and whose trap vector has
none for one bit of the address. -/
def Hart.hosting : Hart :=
  Hart.numbered.implementReadOnly .misa 0x8000000000040180
    |>.implementAll [(.mstatus, 0x7888, 0x8000001888), (.mepc, 0, ~~~1), (.stvec, 0, ~~~2),
      (.sscratch, 0x55, Word.ones), (.sie, 0x222, Word.ones), (.satp, 8 <<< 60, Word.ones)]

namespace HartM

/-- It is set up for a guest in supervisor mode. -/
theorem prepare_hands_over_hosting :
    let request : ModeSwitch := ⟨0x80200003, 1, true⟩
    let valid : ValidSwitch := ⟨0x80200003, .supervisor, true⟩
    let status : Register := { value := 0x7888, writable := 0x8000001888 }
    (request.validate Hart.hosting = .ok (.ok valid) Hart.hosting ∧
      Hart.hosting.csrs.value? .misa = some 0x8000000000040180 ∧
      Hart.hosting.csrs[Csr.mstatus]? = some status ∧ status.readOnly = false ∧
      (status.KeepsMode request.mode → ∀ entry ∈ valid.start 0x8000000000040180,
        Hart.hosting.csrs.accepts entry.1 = true)) ∧
    ∃ final, valid.prepare Hart.hosting = .ok (.ok { mode := .supervisor }) final ∧
      final.csrs[Csr.mstatus]? = some { status with value := 0x8000006808 } ∧
      final.csrs[Csr.stvec]? = some { value := 0x80200001, writable := ~~~2 } ∧
      final.csrs[Csr.mhartid]? = Hart.hosting.csrs[Csr.mhartid]? := by
  intro request valid status
  have advertised : Hart.hosting.csrs.value? .misa = some 0x8000000000040180 := by decide +kernel
  have found : Hart.hosting.csrs[Csr.mstatus]? = some status := by decide +kernel
  have vector : Hart.hosting.csrs[Csr.stvec]? = some { value := 0, writable := ~~~2 } := by
    decide +kernel
  have validated : request.validate Hart.hosting = .ok (.ok valid) Hart.hosting := by
    rw [validate_eq advertised]
    rfl
  have ready : status.KeepsMode request.mode → ∀ entry ∈ valid.start 0x8000000000040180,
      Hart.hosting.csrs.accepts entry.1 = true := by
    decide +kernel
  refine ⟨⟨validated, advertised, found, rfl, ready⟩, ?_⟩
  obtain ⟨-, -, -, -, word, result, final, returns, ran, left, kept, -⟩ :=
    prepare_hands_over validated advertised found rfl ready
  obtain rfl := (valid.returns_iff _ _ _).mp returns
  obtain ⟨rfl, started, others⟩ := kept (by decide +kernel)
  obtain ⟨register, present, stored⟩ := started (.stvec, 0x80200003) (by decide +kernel)
  obtain rfl := Option.some.inj (vector.symm.trans present)
  exact ⟨final, ran, left.trans (by decide +kernel), stored.trans (by decide +kernel),
    others .mhartid (by decide) (by decide +kernel)⟩

end HartM

end HartBoot
