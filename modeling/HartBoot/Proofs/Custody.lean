import HartBoot.Proofs.Isolation
import HartBoot.Proofs.Policy
import HartBoot.Proofs.Reach

/-! # Traps that machine mode keeps

Two registers say which traps supervisor mode handles, and a hart writes to them in one place only,
where it delegates traps by its policy. So whatever harts are called to do, in any order, by any
records and platforms, machine mode keeps the traps that are its own, and gives away the others only
on grounds that the hart had for it. The log of accepted writes tells all that the registers of a
hart have ever held, and this is true of each of these moments. Both registers are judged by
themselves, so a hart that stops between the two writes of a delegation is no exception, and a
register that cannot hold all of the policy gives away less.
-/

namespace HartBoot

variable {extensions : Char → Bool} {grounds wider : FeatureRecord → Platform → Prop}

namespace CsrFile

variable {touched : Csr → Prop} {before after file : CsrFile}

/-- Whether there is a register that advertises an extension. -/
def advertises (file : CsrFile) (extension : Char) : Bool :=
  (file.value? .misa).any fun misa => Misa.has misa extension

/-- The registers that say which traps are delegated. -/
def delegationRegisters : List Csr := [.mideleg, .medeleg]

/-- No write changes the extensions of the hart, and no bit of a delegation register is wired to
one. -/
structure Sealed (file : CsrFile) : Prop where
  extensions : file.accepts .misa = false
  unwired : ∀ csr ∈ delegationRegisters, ∀ register, file[csr]? = some register →
    register.hardwired = 0

/-- The traps that a register file delegates may be delegated. -/
structure Confined (extensions : Char → Bool) (grounds : FeatureRecord → Platform → Prop)
    (file : CsrFile) : Prop where
  interrupts : ∀ bits, file.value? .mideleg = some bits →
    Interrupts.Delegable extensions grounds ⟨bits⟩
  exceptions : ∀ bits, file.value? .medeleg = some bits →
    Exceptions.Delegable extensions grounds ⟨bits⟩

theorem Sealed.evolve (locked : before.Sealed) (evolves : Evolves touched before after) :
    after.Sealed where
  extensions := (evolves.accepts_eq .misa).trans locked.extensions
  unwired csr member rewritten found := by
    obtain ⟨register, held, rewrites⟩ := evolves.origin found
    exact rewrites.hardwired_eq.trans (locked.unwired csr member register held)

theorem Sealed.advertises_eq (locked : before.Sealed) (evolves : Evolves touched before after) :
    after.advertises = before.advertises := by
  funext extension
  rw [advertises, advertises, value?, value?, evolves.of_refused locked.extensions]

/-- What a delegation register holds after a write is what it held before, or part of what is
written. -/
theorem Sealed.value?_write (locked : file.Sealed) {csr : Csr} (member : csr ∈ delegationRegisters)
    {written bits : Word} (found : (file.write csr written).value? csr = some bits) :
    file.value? csr = some bits ∨ written &&& bits = bits := by
  rw [value?, getElem?_write, Option.map_map] at found
  obtain ⟨register, held, stored⟩ := Option.map_eq_some_iff.mp found
  rw [Function.comp_apply] at stored
  split at stored
  next =>
    rw [value?_of_some held, stored]
    exact .inl rfl
  next =>
    have settled : register.settle written = written &&& register.writable := by
      rw [Register.settle, locked.unwired csr member register held]
      exact BitVec.zero_or
    obtain rfl : written &&& register.writable = bits := settled.symm.trans stored
    exact .inr (by rw [← BitVec.and_assoc, BitVec.and_self])

namespace Confined

theorem mono (confined : file.Confined extensions grounds)
    (widens : ∀ record platform, grounds record platform → wider record platform) :
    file.Confined extensions wider where
  interrupts bits found := (confined.interrupts bits found).mono widens
  exceptions bits found := (confined.exceptions bits found).mono widens

/-- What leaves the delegation registers alone keeps the file confined. -/
theorem evolve (confined : before.Confined extensions grounds)
    (evolves : Evolves (· ∉ delegationRegisters) before after) :
    after.Confined extensions grounds where
  interrupts bits found := by
    rw [value?, evolves.frame .mideleg (by decide)] at found
    exact confined.interrupts bits found
  exceptions bits found := by
    rw [value?, evolves.frame .medeleg (by decide)] at found
    exact confined.exceptions bits found

theorem writeInterrupts (confined : file.Confined extensions grounds) (locked : file.Sealed)
    {interrupts : Interrupts} (delegable : interrupts.Delegable extensions grounds) :
    (file.write .mideleg interrupts.bits).Confined extensions grounds where
  interrupts bits found := by
    rcases locked.value?_write (by decide) found with kept | covered
    · exact confined.interrupts bits kept
    · exact delegable.of_contains (beq_iff_eq.mpr covered)
  exceptions bits found := by
    rw [value?_write_of_ne file (by decide)] at found
    exact confined.exceptions bits found

theorem writeExceptions (confined : file.Confined extensions grounds) (locked : file.Sealed)
    {exceptions : Exceptions} (delegable : exceptions.Delegable extensions grounds) :
    (file.write .medeleg exceptions.bits).Confined extensions grounds where
  interrupts bits found := by
    rw [value?_write_of_ne file (by decide)] at found
    exact confined.interrupts bits found
  exceptions bits found := by
    rcases locked.value?_write (by decide) found with kept | covered
    · exact confined.exceptions bits kept
    · exact delegable.of_contains (beq_iff_eq.mpr covered)

end Confined

end CsrFile

/-- A property of the registers holds before the first of the writes by which one hart has become
another, and after each of them. -/
def Hart.Throughout (before : Hart) (good : CsrFile → Prop) (after : Hart) : Prop :=
  ∃ accepted, before.Logs accepted after ∧
    ∀ earlier, earlier <+: accepted → good (before.csrs.writeAll earlier)

namespace Hart.Throughout

variable {good other : CsrFile → Prop} {first second third before after : Hart}

theorem refl {hart : Hart} (holds : good hart.csrs) : hart.Throughout good hart := by
  refine ⟨[], .refl hart, fun earlier initial => ?_⟩
  obtain rfl := List.prefix_nil.mp initial
  exact holds

theorem mono (throughout : before.Throughout good after) (weakens : ∀ file, good file → other file) :
    before.Throughout other after := by
  obtain ⟨accepted, logged, holds⟩ := throughout
  exact ⟨accepted, logged, fun earlier initial => weakens _ (holds earlier initial)⟩

theorem last (throughout : before.Throughout good after) : good after.csrs := by
  obtain ⟨accepted, logged, holds⟩ := throughout
  rw [logged.csrs]
  exact holds accepted (List.prefix_refl accepted)

/-- The first of some writes are among the early ones, or they are all of them and some of the late
ones. -/
theorem trans (start : first.Throughout good second) (rest : second.Throughout good third) :
    first.Throughout good third := by
  obtain ⟨early, logged, holds⟩ := start
  obtain ⟨late, resumed, continues⟩ := rest
  refine ⟨early ++ late, logged.trans resumed, fun entries initial => ?_⟩
  rcases List.prefix_or_prefix_of_prefix initial (List.prefix_append early late) with
    inside | ⟨more, rfl⟩
  · exact holds entries inside
  · rw [CsrFile.writeAll_append, ← logged.csrs]
    exact continues more ((List.prefix_append_right_inj early).mp initial)

/-- What every file holds that differs in some registers at most holds throughout writes to them. -/
theorem of_reaches {touched : Csr → Prop} (reaches : before.Reaches touched after)
    (holds : ∀ file, CsrFile.Evolves touched before.csrs file → good file) :
    before.Throughout good after := by
  obtain ⟨accesses, undergone⟩ := reaches
  refine ⟨_, undergone.logs, fun earlier initial =>
    holds _ (.writeAll (fun entry member => ?_) _)⟩
  exact (undergone.allowed entry (initial.subset member)).1

end Hart.Throughout

namespace HartM

theorem hasExtension_ok {hart : Hart} {misa : Word} (found : hart.value? .misa = some misa)
    (extension : Char) :
    hasExtension extension hart = .ok (hart.csrs.advertises extension) hart := by
  have present : hart.csrs.value? .misa = some misa := found
  rw [CsrFile.advertises, present]
  simp only [hasExtension, read, found, Bind.bind, EStateM.bind, Pure.pure, EStateM.pure,
    Option.any_some]

/-- Delegating traps writes to the two registers in turn. The hart accepts both of the writes, the
first of them, or none, and it accepts none without supervisor mode. -/
theorem logs_delegateTraps (record : FeatureRecord) (platform : Platform) (hart : Hart)
    {delegation : Delegation} (decided : delegation =
      Delegation.policy record (hart.csrs.advertises 'H') platform.delegatesPageFaults) :
    ∃ accepted, hart.Logs accepted (finalHart (delegateTraps record platform) hart) ∧
      (accepted = [] ∨ hart.csrs.advertises 'S' = true ∧
        accepted <+: [(.mideleg, delegation.interrupts.bits),
          (.medeleg, delegation.exceptions.bits)]) := by
  cases found : hart.value? .misa with
  | none =>
    have stopped : hasExtension 'S' hart = .error (.notImplemented .misa) hart := by
      simp only [hasExtension, read, found, Bind.bind, EStateM.bind]
    rw [delegateTraps, finalHart_bind_of_error stopped]
    exact ⟨[], .refl hart, .inl rfl⟩
  | some misa =>
    rw [delegateTraps, finalHart_bind_of_ok (hasExtension_ok found 'S')]
    cases supervised : hart.csrs.advertises 'S' with
    | false => exact ⟨[], .refl hart, .inl rfl⟩
    | true =>
      rw [if_pos rfl, finalHart_bind_of_ok (hasExtension_ok found 'H')]
      dsimp only
      rw [← decided]
      rcases write_cases .mideleg delegation.interrupts.bits hart with
        ⟨final, stopped, logged⟩ | ⟨paused, ran, first⟩
      · rw [finalHart_bind_of_error stopped]
        exact ⟨[], logged, .inl rfl⟩
      · rw [finalHart_bind_of_ok ran, finalHart]
        rcases write_cases .medeleg delegation.exceptions.bits paused with
          ⟨final, stopped, logged⟩ | ⟨final, ended, second⟩
        · rw [stopped]
          exact ⟨_, first.trans logged, .inr ⟨rfl, List.prefix_append _ _⟩⟩
        · rw [ended]
          exact ⟨_, first.trans second, .inr ⟨rfl, List.prefix_refl _⟩⟩

/-- The registers are confined before the delegation, between its writes, and after them. -/
theorem throughout_delegateTraps {record : FeatureRecord} {platform : Platform} {hart : Hart}
    (locked : hart.csrs.Sealed) (confined : hart.csrs.Confined hart.csrs.advertises grounds)
    (used : grounds record platform) :
    hart.Throughout (CsrFile.Confined hart.csrs.advertises grounds)
      (finalHart (delegateTraps record platform) hart) := by
  obtain ⟨accepted, logged, idle | ⟨supervised, planned⟩⟩ :=
    logs_delegateTraps record platform hart rfl
  · refine ⟨accepted, logged, fun earlier initial => ?_⟩
    obtain rfl := List.prefix_nil.mp (idle ▸ initial)
    exact confined
  · have evolves (bits : Word) : CsrFile.Evolves (fun _ => True) hart.csrs
        (hart.csrs.write .mideleg bits) := .write _ trivial bits
    have first := confined.writeInterrupts locked (.policy supervised used)
    have second := first.writeExceptions (locked.evolve (evolves _)) (.policy supervised used)
    refine ⟨accepted, logged, fun earlier initial => ?_⟩
    obtain rfl | ⟨rest, rfl, later⟩ := List.prefix_cons_iff.mp (initial.trans planned)
    · exact confined
    · obtain rfl | ⟨last, rfl, past⟩ := List.prefix_cons_iff.mp later
      · exact first
      · obtain rfl := List.prefix_nil.mp past
        exact second

end HartM

namespace BootM

/-- What is reset from the record in the scratch area of a hart, which is given if traps are to be
delegated by it. -/
def reset : BootM (Except HartError FeatureRecord) := do
  let machine ← get
  match machine.shared.featureOffset with
  | none => return .error .uninitialized
  | some offset =>
    let record := machine.area.get offset
    match ← onHart (HartM.reset record) with
    | .error error => return .error error
    | .ok () => return .ok record

theorem reinit_eq (platform : Platform) :
    reinit platform = reset >>= fun result =>
      match result with
      | .error error => return .error error
      | .ok record => do
        onHart (HartM.delegateTraps record platform)
        return .ok () := by
  rw [reinit, reset, bind_assoc]
  congr 1
  funext machine
  cases machine.shared.featureOffset with
  | none => rfl
  | some offset =>
    dsimp only
    rw [HartM.restore_eq, onHart_bind, bind_assoc]
    congr 1
    funext result
    cases result with
    | error error => rfl
    | ok _ =>
      dsimp only
      rw [onHart_bind, pure_bind]
      rfl

end BootM

/-- What a hart does in a call until it delegates traps, with the record and the platform that it
delegates them by. A call that delegates none answers instead. -/
def HartCall.approach : HartCall → BootM (Except HartAnswer (FeatureRecord × Platform))
  | .boot (.init platform cold) => do
    match ← BootM.enroll cold with
    | .error error => return .error (.booted (.initialized (.error error)))
    | .ok () =>
      match ← BootM.reset with
      | .error error => return .error (.booted (.initialized (.error error)))
      | .ok record => return .ok (record, platform)
  | .boot (.reinit platform) => do
    match ← BootM.reset with
    | .error error => return .error (.booted (.initialized (.error error)))
    | .ok record => return .ok (record, platform)
  | .boot (.delegateTraps given platform) => do
    let record ← match given with
      | some record => pure record
      | none => BootM.storedFeatures
    return .ok (record, platform)
  | call => return .error (← call.action)

/-- What a call answers once it has delegated traps. -/
def HartCall.outcome : HartCall → HartAnswer
  | .boot (.delegateTraps ..) => .booted .delegated
  | _ => .booted (.initialized (.ok ()))

theorem HartCall.approach_of_not_delegates {call : HartCall} (keeps : call.delegates = false) :
    call.approach = do return .error (← call.action) := by
  cases call with
  | boot step => cases step <;> first | rfl | cases keeps
  | _ => rfl

/-- A call delegates traps at its end, or not at all. -/
theorem HartCall.action_eq (call : HartCall) :
    call.action = call.approach >>= fun approached =>
      match approached with
      | .error answer => return answer
      | .ok (record, platform) => do
        BootM.onHart (HartM.delegateTraps record platform)
        return call.outcome := by
  -- A baseline is answered for after the delegation at its end.
  have resets (platform : Platform) :
      (BootM.reinit platform >>= fun result => return HartAnswer.booted (.initialized result)) =
        BootM.reset >>= fun result =>
          match result with
          | .error error => return .booted (.initialized (.error error))
          | .ok record => do
            BootM.onHart (HartM.delegateTraps record platform)
            return .booted (.initialized (.ok ())) := by
    rw [BootM.reinit_eq, bind_assoc]
    congr 1
    funext result
    cases result <;> simp only [bind_assoc, pure_bind]
  cases keeps : call.delegates with
  | false =>
    rw [approach_of_not_delegates keeps, bind_assoc]
    simp only [pure_bind, bind_pure]
  | true =>
    cases call with
    | boot step =>
      cases step with
      | init platform cold =>
        simp only [action, BootStep.action, approach, bind_assoc, pure_bind, BootM.init_eq]
        congr 1
        funext enrolled
        cases enrolled with
        | error error => simp only [pure_bind]
        | ok _ =>
          dsimp only
          rw [resets, bind_assoc]
          congr 1
          funext result
          cases result <;> rfl
      | reinit platform =>
        simp only [action, BootStep.action, approach, bind_assoc, pure_bind]
        rw [resets]
        congr 1
        funext result
        cases result <;> rfl
      | delegateTraps given platform =>
        cases given <;> simp only [action, BootStep.action, approach, bind_assoc, pure_bind] <;> rfl
      | _ => cases keeps
    | _ => cases keeps

namespace BootM

theorem within_reset : Within (· ∉ CsrFile.delegationRegisters) reset := by
  have spared : ∀ csr ∈ HartM.resetRegisters, csr ∉ CsrFile.delegationRegisters := by decide
  refine .looking (fun _ => rfl) fun machine => ?_
  cases machine.shared.featureOffset with
  | none => exact .pure _
  | some offset =>
    refine (Within.onHart (HartM.writes_reset spared _)).bind fun result => ?_
    cases result <;> exact .pure _

end BootM

namespace HartCall

open BootM

/-- Until a call delegates traps, it leaves the delegation registers alone. -/
theorem within_approach (call : HartCall) :
    Within (· ∉ CsrFile.delegationRegisters) call.approach := by
  have tried : ∀ csr ∈ HartM.triedRegisters, csr ∉ CsrFile.delegationRegisters := by decide
  cases keeps : call.delegates with
  | false =>
    rw [approach_of_not_delegates keeps]
    exact (within_of_not_delegates tried (by decide) (by decide) keeps).bind fun _ => .pure _
  | true =>
    have resets (platform : Platform) : Within (· ∉ CsrFile.delegationRegisters)
        (HartCall.boot (.reinit platform)).approach :=
      within_reset.bind fun result => by cases result <;> exact .pure _
    cases call with
    | boot step =>
      cases step with
      | init platform cold =>
        refine (Within.enroll tried cold).bind fun enrolled => ?_
        cases enrolled with
        | error error => exact .pure _
        | ok _ => exact resets platform
      | reinit platform => exact resets platform
      | delegateTraps given platform =>
        cases given with
        | some record => exact .pure _
        | none => exact Within.storedFeatures.bind fun _ => .pure _
      | _ => cases keeps
    | _ => cases keeps

/-- A call on a machine comes to delegate traps by a record and a platform. -/
def DelegatesBy (call : HartCall) (machine : Machine) (record : FeatureRecord)
    (platform : Platform) : Prop :=
  ∃ paused, call.approach machine = .ok (.ok (record, platform)) paused

/-- A call keeps the registers of its hart confined all the time, wherever it ends or stops. -/
theorem throughout_action (call : HartCall) {machine : Machine}
    (locked : machine.hart.csrs.Sealed)
    (confined : machine.hart.csrs.Confined machine.hart.csrs.advertises grounds) :
    machine.hart.Throughout (CsrFile.Confined machine.hart.csrs.advertises fun record platform =>
      grounds record platform ∨ call.DelegatesBy machine record platform)
      (finalMachine call.action machine).hart := by
  have approached := call.within_approach.evolves machine
  have still : machine.hart.Throughout (CsrFile.Confined machine.hart.csrs.advertises
      fun record platform => grounds record platform ∨ call.DelegatesBy machine record platform)
      (finalMachine call.approach machine).hart :=
    .of_reaches (call.within_approach.descends machine).reaches fun file evolves =>
      (confined.evolve evolves).mono fun _ _ => .inl
  rw [action_eq]
  cases ran : call.approach machine with
  | error stop final =>
    rw [finalMachine_bind_of_error ran]
    rwa [finalMachine, ran] at still
  | ok result paused =>
    rw [finalMachine_of_ok ran] at approached still
    rw [finalMachine_bind_of_ok ran]
    cases result with
    | error answer => exact still
    | ok used =>
      obtain ⟨record, platform⟩ := used
      dsimp only
      rw [finalMachine_bind_pure, hart_finalMachine_onHart]
      rw [← locked.advertises_eq approached] at still ⊢
      exact still.trans
        (HartM.throughout_delegateTraps (locked.evolve approached) still.last (.inr ⟨paused, ran⟩))

end HartCall

namespace Cluster

/-- In the course of calls, a hart delegates traps by a record and a platform. -/
def DelegatesBy (hart : Nat) (record : FeatureRecord) (platform : Platform) :
    Cluster → List HartTurn → Prop
  | _, [] => False
  | cluster, turn :: rest =>
    (turn.hart = hart ∧
      turn.call.DelegatesBy (cluster.machine turn.hart turn.area) record platform) ∨
    DelegatesBy hart record platform
      (cluster.perform turn.hart turn.area turn.call.action).2 rest

variable {cluster : Cluster} {hart : Nat}

/-- A call on any hart keeps the registers of a hart confined. -/
theorem throughout_perform (turn : HartTurn) (locked : (cluster.harts hart).csrs.Sealed)
    (confined : (cluster.harts hart).csrs.Confined (cluster.harts hart).csrs.advertises grounds) :
    (cluster.harts hart).Throughout (CsrFile.Confined (cluster.harts hart).csrs.advertises
      fun record platform => grounds record platform ∨ (turn.hart = hart ∧
        turn.call.DelegatesBy (cluster.machine turn.hart turn.area) record platform))
      ((cluster.perform turn.hart turn.area turn.call.action).2.harts hart) := by
  rw [perform_snd, settle]
  dsimp only
  by_cases own : turn.hart = hart
  · subst own
    rw [Function.update_self]
    have kept := @HartCall.throughout_action grounds turn.call
      (cluster.machine turn.hart turn.area) locked confined
    exact kept.mono fun file holds => holds.mono fun _ _ => .imp_right fun used => ⟨rfl, used⟩
  · rw [Function.update_of_ne (Ne.symm own)]
    exact .refl (confined.mono fun _ _ => .inl)

/-- So do calls in turn. -/
theorem throughout_serve {schedule : List HartTurn} (locked : (cluster.harts hart).csrs.Sealed)
    (confined : (cluster.harts hart).csrs.Confined (cluster.harts hart).csrs.advertises grounds) :
    (cluster.harts hart).Throughout (CsrFile.Confined (cluster.harts hart).csrs.advertises
      fun record platform => grounds record platform ∨
        DelegatesBy hart record platform cluster schedule)
      ((cluster.serve schedule).2.harts hart) := by
  induction schedule generalizing cluster grounds with
  | nil => exact .refl (confined.mono fun _ _ => .inl)
  | cons turn rest ih =>
    have evolves := cluster.evolves_perform turn hart
    have first := throughout_perform turn locked confined
    have advertised := locked.advertises_eq evolves
    rw [← advertised] at first ⊢
    have later := ih (locked.evolve evolves) first.last
    refine (first.mono fun file holds => holds.mono fun _ _ used => ?_).trans
      (later.mono fun file holds => holds.mono fun _ _ => or_assoc.mp)
    exact used.imp_right .inl

/-- Machine mode never gives its own traps away. On a hart whose extensions are fixed and that
starts without delegating anything, whatever calls are made on this hart and on others, and however
they end, no more is ever delegated than may be, on the grounds of records and platforms that the
hart delegates traps by. This holds before the first write to a register and after each of them, so
it also holds in the course of a call and between the writes of a delegation. -/
theorem serve_confined (cluster : Cluster) (hart : Nat)
    (fixed : (cluster.harts hart).csrs.accepts .misa = false)
    (clear : ∀ csr ∈ CsrFile.delegationRegisters, ∀ register,
      (cluster.harts hart).csrs[csr]? = some register → register.value = 0)
    (schedule : List HartTurn) :
    (cluster.harts hart).Throughout (CsrFile.Confined (cluster.harts hart).csrs.advertises
      fun record platform => DelegatesBy hart record platform cluster schedule)
      ((cluster.serve schedule).2.harts hart) := by
  have locked : (cluster.harts hart).csrs.Sealed :=
    { extensions := fixed
      unwired := fun csr member register found => by
        rw [Register.hardwired, clear csr member register found]
        exact BitVec.zero_and }
  have nothing {csr : Csr} (member : csr ∈ CsrFile.delegationRegisters) {bits : Word}
      (found : (cluster.harts hart).csrs.value? csr = some bits) : bits = 0 := by
    obtain ⟨register, held, rfl⟩ := Option.map_eq_some_iff.mp found
    exact clear csr member register held
  have confined : (cluster.harts hart).csrs.Confined (cluster.harts hart).csrs.advertises
      fun _ _ => False :=
    { interrupts := fun bits found => by
        obtain rfl := nothing (by decide) found
        exact .empty
      exceptions := fun bits found => by
        obtain rfl := nothing (by decide) found
        exact .empty }
  exact (throughout_serve locked confined).mono fun file holds =>
    holds.mono fun _ _ used => used.resolve_left not_false

end Cluster

/-- A hart boots, delegates traps by a record with all features and some that have no name, on a
platform that asks for page faults, and leaves machine mode. -/
def HartTurn.delegating : List HartTurn :=
  [⟨0, 0, .boot (.init {} true)⟩,
    ⟨0, 0, .boot (.delegateTraps (some { features := ⟨Word.ones⟩ }) ⟨true⟩)⟩,
    ⟨0, 0, .boot (.switchMode ⟨0x80200000, 1, false⟩ 0 0)⟩]

namespace Cluster

theorem serve_confined_reservedHarts :
    (reservedHarts.harts 0).csrs.accepts .misa = false ∧
      (∀ csr ∈ CsrFile.delegationRegisters, ∀ register,
        (reservedHarts.harts 0).csrs[csr]? = some register → register.value = 0) ∧
      (reservedHarts.harts 0).Throughout
        (CsrFile.Confined (reservedHarts.harts 0).csrs.advertises fun record platform =>
          DelegatesBy 0 record platform reservedHarts HartTurn.delegating)
        ((reservedHarts.serve HartTurn.delegating).2.harts 0) := by
  have fixed : (reservedHarts.harts 0).csrs.accepts .misa = false := by decide +kernel
  have clear : ∀ csr ∈ CsrFile.delegationRegisters, ∀ register,
      (reservedHarts.harts 0).csrs[csr]? = some register → register.value = 0 := by
    have zero : ∀ csr ∈ CsrFile.delegationRegisters,
        (reservedHarts.harts 0).csrs.value? csr = some 0 := by
      decide +kernel
    intro csr member register found
    exact Option.some.inj ((CsrFile.value?_of_some found).symm.trans (zero csr member))
  exact ⟨fixed, clear, serve_confined reservedHarts 0 fixed clear HartTurn.delegating⟩

end Cluster

end HartBoot
