import HartBoot.Calls
import HartBoot.Proofs.Discretion
import HartBoot.Proofs.Writes

/-! # How far actions reach

What an action may do is bounded in two directions. It rewrites registers of some set at most, and
leaves all others as they were, whether it ends or stops; the place of the feature record stays once
it is reserved. And it takes no notice of the terminal: on a hart that has a number, it does the same
whatever the terminal lets through, and all that it leaves there is text. The number is needed
because some reports begin with it, and looking it up stops a hart that has none. Both bounds
compose along the steps of an action.
-/

namespace HartBoot

/-- A machine with a terminal that lets nothing through. -/
def Machine.mute (machine : Machine) : Machine :=
  { machine with shared := { machine.shared with terminal := {} } }

/-- What a machine can have become by accepted writes to registers of a set. The place of the feature
record stays once it is reserved, and nothing but text comes to the terminal. -/
structure Machine.Descends (touched : Csr → Prop) (before after : Machine) : Prop where
  reaches : before.hart.Reaches touched after.hart
  silent : after.shared.terminal.silent = before.shared.terminal.silent
  place : ∀ offset, before.shared.featureOffset = some offset →
    after.shared.featureOffset = some offset

namespace Machine.Descends

variable {touched : Csr → Prop} {before after : Machine}

theorem refl (touched : Csr → Prop) (machine : Machine) : machine.Descends touched machine where
  reaches := .refl touched machine.hart
  silent := rfl
  place _ reserved := reserved

theorem trans {later : Machine} (early : before.Descends touched after)
    (late : after.Descends touched later) : before.Descends touched later where
  reaches := early.reaches.trans late.reaches
  silent := late.silent.trans early.silent
  place offset reserved := late.place offset (early.place offset reserved)

/-- A machine whose harts share what they shared before. -/
theorem of_hart (reaches : before.hart.Reaches touched after.hart)
    (same : after.shared = before.shared) : before.Descends touched after where
  reaches := reaches
  silent := by rw [same]
  place offset reserved := by rw [same, reserved]

theorem evolves (descends : before.Descends touched after) :
    CsrFile.Evolves touched before.hart.csrs after.hart.csrs := descends.reaches.evolves

end Machine.Descends

namespace BootM

variable {α β : Type} {touched : Csr → Prop}

/-- How an action ends or stops, and what it leaves apart from the terminal. -/
def effect (action : BootM α) (machine : Machine) : Except Stop α × Machine :=
  match action machine with
  | .ok result final => (.ok result, final.mute)
  | .error stop final => (.error stop, final.mute)

theorem effect_of_ok {action : BootM α} {machine final : Machine} {result : α}
    (ran : action machine = .ok result final) : effect action machine = (.ok result, final.mute) := by
  rw [effect, ran]

theorem effect_of_error {action : BootM α} {machine final : Machine} {stop : Stop}
    (stopped : action machine = .error stop final) :
    effect action machine = (.error stop, final.mute) := by
  rw [effect, stopped]

/-- An action rewrites registers of a set at most and leaves nothing but text on the terminal. On a
hart that has a number, it makes no difference to the action what the terminal lets through. -/
structure Within (touched : Csr → Prop) (action : BootM α) : Prop where
  descends : ∀ machine : Machine, machine.Descends touched (finalMachine action machine)
  impartial : ∀ machine : Machine, machine.hart.csrs[Csr.mhartid]?.isSome = true →
    effect action machine.mute = effect action machine

namespace Within

theorem evolves {action : BootM α} (within : Within touched action) (machine : Machine) :
    CsrFile.Evolves touched machine.hart.csrs (finalMachine action machine).hart.csrs :=
  (within.descends machine).evolves

theorem pure (result : α) : Within touched (Pure.pure result : BootM α) where
  descends := .refl touched
  impartial _ _ := rfl

theorem throw (stop : Stop) : Within touched (MonadExcept.throw stop : BootM α) where
  descends := .refl touched
  impartial _ _ := rfl

/-- What follows an action goes on from what the action has left apart from the terminal. -/
private theorem effect_bind {action : BootM α} (first : Within touched action)
    {next : α → BootM β} (second : ∀ result, Within touched (next result)) {machine : Machine}
    (numbered : machine.hart.csrs[Csr.mhartid]?.isSome = true) :
    effect (action >>= next) machine =
      match effect action machine with
      | (.ok result, paused) => effect (next result) paused
      | (.error stop, final) => (.error stop, final) := by
  have kept := (first.evolves machine).isSome_eq .mhartid
  cases ran : action machine with
  | ok result paused =>
    rw [finalMachine_of_ok ran, numbered] at kept
    rw [effect_of_ok ran, effect, bind_ok ran]
    exact ((second result).impartial paused kept).symm
  | error stop final =>
    rw [effect_of_error ran]
    simp only [effect, Bind.bind, EStateM.bind, ran]

theorem bind {action : BootM α} {next : α → BootM β} (first : Within touched action)
    (second : ∀ result, Within touched (next result)) : Within touched (action >>= next) where
  descends machine := by
    have start := first.descends machine
    cases ran : action machine with
    | ok result paused =>
      rw [finalMachine_of_ok ran] at start
      rw [finalMachine_bind_of_ok ran]
      exact start.trans ((second result).descends paused)
    | error stop final =>
      rw [finalMachine, ran] at start
      rw [finalMachine_bind_of_error ran]
      exact start
  impartial machine numbered := by
    have muted : machine.mute.hart.csrs[Csr.mhartid]?.isSome = true := numbered
    rw [effect_bind first second numbered, effect_bind first second muted,
      first.impartial machine numbered]

theorem ite {action other : BootM α} {condition : Prop} [Decidable condition]
    (first : Within touched action) (second : Within touched other) :
    Within touched (if condition then action else other) := by
  split
  · exact first
  · exact second

theorem forM {items : List α} {step : α → BootM PUnit}
    (each : ∀ item, Within touched (step item)) : Within touched (items.forM step) := by
  induction items with
  | nil => exact pure _
  | cons item rest ih => exact (each item).bind fun _ => ih

/-- What follows a look at anything but the terminal. -/
theorem looking {next : Machine → BootM α} (blind : ∀ machine, next machine.mute = next machine)
    (follows : ∀ machine, Within touched (next machine)) : Within touched (get >>= next) where
  descends machine := (follows machine).descends machine
  impartial machine numbered := by
    have same : effect (get >>= next) machine.mute = effect (next machine) machine.mute := by
      rw [← blind machine]
      rfl
    exact same.trans ((follows machine).impartial machine numbered)

theorem onHart {action : HartM α} (writes : HartM.Writes touched action) :
    Within touched (BootM.onHart action) where
  descends machine := by
    apply Machine.Descends.of_hart
    · rw [hart_finalMachine_onHart]
      exact writes machine.hart
    · obtain ⟨hart, area, shared⟩ := machine
      simp only [finalMachine, BootM.onHart]
      cases action hart <;> rfl
  impartial machine _ := by
    obtain ⟨hart, area, shared⟩ := machine
    simp only [effect, BootM.onHart, Machine.mute]
    cases action hart <;> rfl

/-- A change of the area alone that does not look at the terminal. -/
theorem change {step : Machine → Machine} (hart : ∀ machine, (step machine).hart = machine.hart)
    (shared : ∀ machine, (step machine).shared = machine.shared)
    (blind : ∀ machine, (step machine.mute).mute = (step machine).mute) :
    Within touched (modify step : BootM PUnit) where
  descends machine := by
    have kept : (finalMachine (modify step : BootM PUnit) machine).hart = machine.hart := hart machine
    apply Machine.Descends.of_hart
    · rw [kept]
      exact .refl touched machine.hart
    · exact shared machine
  impartial machine _ := congrArg (Prod.mk (Except.ok PUnit.unit)) (blind machine)

/-- A report changes nothing but the text on the terminal if its message changes nothing, even if the
message stops the hart. -/
private theorem finalMachine_diagnose {message : BootM String} {machine : Machine}
    (still : finalMachine message machine = machine) (level : Level) (target : String) :
    ∃ terminal, terminal.silent = machine.shared.terminal.silent ∧
      finalMachine (BootM.diagnose level target message) machine =
        { machine with shared := { machine.shared with terminal } } := by
  by_cases shown : machine.shared.terminal.enabled level
  · rw [BootM.diagnose, finalMachine_bind_of_ok (get_eq machine), if_pos shown]
    cases ran : message machine with
    | ok text final =>
      obtain rfl : final = machine := (finalMachine_of_ok ran).symm.trans still
      rw [finalMachine_bind_of_ok ran]
      exact ⟨_, Terminal.silent_record final.shared.terminal level target text, rfl⟩
    | error stop final =>
      rw [finalMachine, ran] at still
      obtain rfl : final = machine := still
      rw [finalMachine_bind_of_error ran]
      exact ⟨final.shared.terminal, rfl, rfl⟩
  · rw [BootM.diagnose, finalMachine_bind_of_ok (get_eq machine), if_neg shown]
    exact ⟨machine.shared.terminal, rfl, rfl⟩

/-- A report whose message changes nothing, and which is put together without a stop on a hart that
has a number. -/
theorem diagnose {message : BootM String} (still : ∀ machine, finalMachine message machine = machine)
    (composed : ∀ machine : Machine, machine.hart.csrs[Csr.mhartid]?.isSome = true →
      ∃ text, message machine = .ok text machine) (level : Level) (target : String) :
    Within touched (BootM.diagnose level target message) where
  descends machine := by
    obtain ⟨terminal, silent, same⟩ := finalMachine_diagnose (still machine) level target
    rw [same]
    exact ⟨.refl touched machine.hart, silent, fun _ reserved => reserved⟩
  impartial machine numbered := by
    have muted : machine.mute.hart.csrs[Csr.mhartid]?.isSome = true := numbered
    obtain ⟨text, given⟩ := composed machine numbered
    obtain ⟨other, again⟩ := composed machine.mute muted
    obtain ⟨terminal, printed⟩ := diagnose_ok given level target
    obtain ⟨hidden, dropped⟩ := diagnose_ok again level target
    rw [effect_of_ok printed, effect_of_ok dropped]
    rfl

/-- A report with a given message. -/
theorem report (level : Level) (target message : String) :
    Within touched (BootM.diagnose level target (Pure.pure message)) :=
  diagnose (fun _ => rfl) (fun _ _ => ⟨message, rfl⟩) level target

/-- A report whose message tells the number of the hart. -/
theorem reportNumbered (level : Level) (target : String) (message : Word → String) :
    Within touched (BootM.diagnose level target
      (BootM.onHart HartM.hartId >>= fun id => Pure.pure (message id))) := by
  refine diagnose (fun machine => ?_) (fun machine numbered => ?_) level target
  · cases found : machine.hart.value? .mhartid with
    | some id =>
      have named : BootM.onHart HartM.hartId machine = .ok id machine :=
        onHart_eq_ok_iff.mpr ⟨machine.hart, by simp only [HartM.hartId, HartM.read, found], rfl⟩
      rw [finalMachine_bind_of_ok named]
      rfl
    | none =>
      have stopped : BootM.onHart HartM.hartId machine = .error (.notImplemented .mhartid) machine :=
        onHart_eq_error_iff.mpr ⟨machine.hart, by simp only [HartM.hartId, HartM.read, found], rfl⟩
      rw [finalMachine_bind_of_error stopped]
  · obtain ⟨register, found⟩ := Option.isSome_iff_exists.mp numbered
    have present : machine.hart.value? .mhartid = some register.value :=
      CsrFile.value?_of_some found
    have named : BootM.onHart HartM.hartId machine = .ok register.value machine :=
      onHart_eq_ok_iff.mpr ⟨machine.hart, by simp only [HartM.hartId, HartM.read, present], rfl⟩
    exact ⟨message register.value, bind_ok named _⟩

/-- A place for the feature record is looked for in what harts share alone, and stays where it is
once it is reserved. -/
theorem featureOffset (cold : Bool) : Within touched (BootM.featureOffset cold) where
  descends machine := by
    rcases featureOffset_cases cold machine with ⟨error, refused⟩ | ⟨offset, shared, given, -⟩
    · rw [finalMachine_of_ok refused]
      exact .refl touched machine
    · rw [finalMachine_of_ok given]
      rcases of_featureOffset_ok given with ⟨-, rfl⟩ | ⟨vacant, offsets, -, rfl⟩
      · exact .refl touched machine
      · refine ⟨.refl touched machine.hart, rfl, fun other reserved => ?_⟩
        rw [vacant] at reserved
        cases reserved
  impartial machine _ := by
    cases found : machine.shared.featureOffset with
    | some offset =>
      have again : machine.mute.shared.featureOffset = some offset := found
      rw [effect_of_ok (featureOffset_of_reserved again),
        effect_of_ok (featureOffset_of_reserved found)]
      rfl
    | none =>
      have again : machine.mute.shared.featureOffset = none := found
      have same : machine.mute.shared.offsets = machine.shared.offsets := rfl
      rw [effect, effect, featureOffset_of_none again, featureOffset_of_none found, same]
      cases cold with
      | false => rfl
      | true => cases machine.shared.offsets.alloc? FeatureRecord <;> rfl

theorem storedFeatures : Within touched BootM.storedFeatures := by
  refine looking (fun _ => rfl) fun machine => ?_
  cases machine.shared.features machine.area with
  | ok record => exact pure record
  | error stop => exact throw stop

theorem reportFeatures (record : FeatureRecord) : Within touched (BootM.reportFeatures record) :=
  reportNumbered _ _ _

theorem carryOut (hit : ∀ entry : Fin 64,
      touched (Csr.pmpaddr entry) ∧ touched (PmpSetting.configRegister entry))
    (domain : String) (verdict : Verdict) : Within touched (BootM.carryOut domain verdict) := by
  cases verdict with
  | placed region settings => exact onHart (.forM settings (HartM.writes_apply hit))
  | unprotectable region error => exact report _ _ _
  | noRoom region => exact report _ _ _
  | unencodable region error => exact report _ _ _
  | exhausted regions => exact report _ _ _

theorem configure (hit : ∀ entry : Fin 64,
      touched (Csr.pmpaddr entry) ∧ touched (PmpSetting.configRegister entry))
    (record : FeatureRecord) (domain : Domain) : Within touched (BootM.configure record domain) := by
  refine .ite (pure _) ((forM (carryOut hit domain.name)).bind fun _ => ?_)
  refine (onHart (.read .mhartid)).bind fun _ => .ite ?_ (pure _)
  exact (report _ _ _).bind fun _ => pure _

end Within

/-- The first part of initialization: a record is detected, stored and reported if there is a place
for it. -/
def enroll (cold : Bool) : BootM (Except HartError Unit) := do
  match ← featureOffset cold with
  | .error error => return .error error
  | .ok offset =>
    let record ← onHart HartM.detect
    modify fun machine => { machine with area := machine.area.put offset record }
    reportFeatures record
    return .ok ()

/-- Initialization enrolls a hart and goes on to the baseline. -/
theorem init_eq (platform : Platform) (cold : Bool) :
    init platform cold = enroll cold >>= fun enrolled =>
      match enrolled with
      | .error error => return .error error
      | .ok () => reinit platform := by
  rw [init, enroll, bind_assoc]
  congr 1
  funext place
  cases place with
  | error error => rfl
  | ok offset => simp only [bind_assoc, pure_bind]

namespace Within

theorem enroll (hit : ∀ csr ∈ HartM.triedRegisters, touched csr) (cold : Bool) :
    Within touched (BootM.enroll cold) := by
  refine (featureOffset cold).bind fun place => ?_
  cases place with
  | error error => exact pure _
  | ok offset =>
    refine (onHart (HartM.writes_detect hit)).bind fun record => ?_
    have stores : Within touched (modify fun machine =>
        { machine with area := machine.area.put offset record }) :=
      change (fun _ => rfl) (fun _ => rfl) fun _ => rfl
    exact stores.bind fun _ => (reportFeatures record).bind fun _ => pure _

theorem switchMode (hit : ∀ csr ∈ HartM.handoverRegisters, touched csr) (request : ModeSwitch)
    (arg0 arg1 : Word) : Within touched (BootM.switchMode request arg0 arg1) := by
  refine (onHart (HartM.writes_prepareSwitch hit request)).bind fun prepared => ?_
  cases prepared with
  | ok prepared => exact onHart (HartM.writes_enter arg0 arg1)
  | error error => exact (reportNumbered _ _ _).bind fun _ => onHart HartM.writes_wait

theorem reinit (platform : Platform) : Within (fun _ => True) (BootM.reinit platform) := by
  refine looking (fun _ => rfl) fun machine => ?_
  cases machine.shared.featureOffset with
  | none => exact pure _
  | some offset => exact onHart ((HartM.writes_restore _ platform).mono fun _ _ => trivial)

theorem init (platform : Platform) (cold : Bool) :
    Within (fun _ => True) (BootM.init platform cold) := by
  rw [init_eq]
  refine (enroll (fun _ _ => trivial) cold).bind fun enrolled => ?_
  cases enrolled with
  | error error => exact pure _
  | ok _ => exact reinit platform

end Within

end BootM

/-- Whether a step may delegate traps. -/
def BootStep.delegates : BootStep → Bool
  | .init .. | .reinit .. | .delegateTraps .. => true
  | .detect | .configure .. | .setBlock .. | .setRange .. | .switchMode .. => false

/-- Whether a call may delegate traps. -/
def HartCall.delegates : HartCall → Bool
  | .boot step => step.delegates
  | .configure .. | .validate .. | .prepare .. => false

section calls

open BootM

variable {touched : Csr → Prop} (tried : ∀ csr ∈ HartM.triedRegisters, touched csr)
  (protection : ∀ entry : Fin 64,
    touched (Csr.pmpaddr entry) ∧ touched (PmpSetting.configRegister entry))
  (handover : ∀ csr ∈ HartM.handoverRegisters, touched csr)

include tried protection handover

/-- A step that does not delegate traps tries registers out, programs protection entries, or sets
the hart up for another mode. -/
theorem BootStep.within_of_not_delegates {step : BootStep} (keeps : step.delegates = false) :
    Within touched step.action := by
  cases step with
  | init platform cold => cases keeps
  | reinit platform => cases keeps
  | delegateTraps given platform => cases keeps
  | detect => exact (Within.onHart (HartM.writes_detect tried)).bind fun _ => .pure _
  | configure domain =>
    refine Within.storedFeatures.bind fun record => ?_
    exact (Within.configure protection record domain).bind fun _ => .pure _
  | setBlock entry flags base order =>
    exact (Within.onHart (HartM.writes_applySettings protection _)).bind fun _ => .pure _
  | setRange entry flags start limit =>
    exact (Within.onHart (HartM.writes_setRange protection entry flags start limit)).bind
      fun _ => .pure _
  | switchMode request arg0 arg1 =>
    exact (Within.switchMode handover request arg0 arg1).bind fun never => never.elim

/-- So does a call. -/
theorem HartCall.within_of_not_delegates {call : HartCall} (keeps : call.delegates = false) :
    Within touched call.action := by
  cases call with
  | boot step =>
    have within := BootStep.within_of_not_delegates tried protection handover keeps
    exact within.bind fun _ => .pure _
  | configure record domain => exact (Within.configure protection record domain).bind fun _ => .pure _
  | validate request => exact (Within.onHart (HartM.writes_validate request)).bind fun _ => .pure _
  | prepare request =>
    exact (Within.onHart (HartM.writes_prepare handover request)).bind fun _ => .pure _

end calls

namespace HartCall

open BootM

/-- Every call takes no notice of the terminal. -/
theorem within (call : HartCall) : Within (fun _ => True) call.action := by
  cases keeps : call.delegates with
  | false =>
    exact within_of_not_delegates (fun _ _ => trivial) (fun _ => ⟨trivial, trivial⟩)
      (fun _ _ => trivial) keeps
  | true =>
    cases call with
    | configure record domain => cases keeps
    | validate request => cases keeps
    | prepare request => cases keeps
    | boot step =>
      refine Within.bind ?_ fun _ => .pure _
      cases step with
      | init platform cold => exact (Within.init platform cold).bind fun _ => .pure _
      | reinit platform => exact (Within.reinit platform).bind fun _ => .pure _
      | delegateTraps given platform =>
        have delegates (record : FeatureRecord) : Within (fun _ => True) (do
            onHart (HartM.delegateTraps record platform)
            return BootAnswer.delegated) :=
          (Within.onHart ((HartM.writes_delegateTraps record platform).mono fun _ _ => trivial)).bind
            fun _ => .pure _
        cases given with
        | some record => exact (Within.pure record).bind delegates
        | none => exact Within.storedFeatures.bind delegates
      | _ => cases keeps

end HartCall

/-- A call changes registers of harts by accepted writes. -/
theorem Cluster.evolves_perform (cluster : Cluster) (turn : HartTurn) (hart : Nat) :
    CsrFile.Evolves (fun _ => True) (cluster.harts hart).csrs
      ((cluster.perform turn.hart turn.area turn.call.action).2.harts hart).csrs := by
  rw [perform_snd, settle]
  dsimp only
  by_cases own : hart = turn.hart
  · subst own
    rw [Function.update_self]
    exact turn.call.within.evolves (cluster.machine turn.hart turn.area)
  · rw [Function.update_of_ne own]
    exact .refl _ _

end HartBoot
