import HartBoot.Cluster
import HartBoot.Proofs.Initialization

/-! # What booting leaves in the memory

Boot software works on registers and prints diagnostics. Apart from its printing it changes neither
the scratch area of its hart nor what harts share, with one exception: initialization may have to
reserve a place for the feature record, and puts the record there once detection has come to an end.
What initialization does to the memory is therefore settled by two questions, whether there is a
place for the record and whether detection ends. Nothing that happens afterwards matters, whether
initialization succeeds, fails or stops the hart.
-/

namespace HartBoot

namespace Terminal

/-- A terminal without what was printed. -/
def silent (terminal : Terminal) : Terminal := { terminal with written := #[] }

theorem silent_record (terminal : Terminal) (level : Level) (target message : String) :
    (terminal.record level target message).silent = terminal.silent := by
  unfold record emit print
  split
  · split
    · split <;> rfl
    · rfl
  · rfl

end Terminal

/-- The shared state without what was printed. -/
def Shared.silent (shared : Shared) : Shared := { shared with terminal := shared.terminal.silent }

namespace Shared

variable {left right : Shared}

theorem offsets_eq_of_silent (same : left.silent = right.silent) :
    left.offsets = right.offsets := by
  have kept := congrArg Shared.offsets same
  exact kept

theorem featureOffset_eq_of_silent (same : left.silent = right.silent) :
    left.featureOffset = right.featureOffset := by
  have kept := congrArg Shared.featureOffset same
  exact kept

end Shared

/-- A machine without what was printed. -/
def Machine.silent (machine : Machine) : Machine := { machine with shared := machine.shared.silent }

namespace BootM

variable {α β : Type}

theorem finalMachine_of_ok {action : BootM α} {machine final : Machine} {result : α}
    (ran : action machine = .ok result final) : finalMachine action machine = final := by
  rw [finalMachine, ran]

/-- Once its beginning has ended, an action goes on from what the beginning left. -/
theorem finalMachine_bind_of_ok {action : BootM α} {machine paused : Machine} {result : α}
    (ran : action machine = .ok result paused) (next : α → BootM β) :
    finalMachine (action >>= next) machine = finalMachine (next result) paused := by
  rw [finalMachine, bind_ok ran, finalMachine]

/-- An action that stops does not go on. -/
theorem finalMachine_bind_of_error {action : BootM α} {machine final : Machine} {stop : Stop}
    (stopped : action machine = .error stop final) (next : α → BootM β) :
    finalMachine (action >>= next) machine = final := by
  simp only [finalMachine, Bind.bind, EStateM.bind, stopped]

/-- Actions that are made up of what a hart does by itself, of printing, and of looking at anything
but what was printed. -/
inductive Discreet : {α : Type} → BootM α → Prop
  | pure {α : Type} (result : α) : Discreet (Pure.pure result)
  | throw {α : Type} (stop : Stop) : Discreet (MonadExcept.throw stop : BootM α)
  | onHart {α : Type} (action : HartM α) : Discreet (BootM.onHart action)
  | bind {α β : Type} {action : BootM α} {next : α → BootM β} (first : Discreet action)
      (second : ∀ result, Discreet (next result)) : Discreet (action >>= next)
  | looking {α : Type} {next : Machine → BootM α}
      (blind : ∀ machine, next machine.silent = next machine)
      (follows : ∀ machine, Discreet (next machine)) : Discreet (get >>= next)
  | print (level : Level) (target text : String) : Discreet (modify fun machine =>
      { machine with shared :=
        { machine.shared with terminal := machine.shared.terminal.record level target text } })

namespace Discreet

theorem ite {action other : BootM α} {condition : Prop} [Decidable condition]
    (first : Discreet action) (second : Discreet other) :
    Discreet (if condition then action else other) := by
  split
  · exact first
  · exact second

theorem forM {items : List α} {step : α → BootM PUnit} (each : ∀ item, Discreet (step item)) :
    Discreet (items.forM step) := by
  induction items with
  | nil => exact pure _
  | cons item rest ih => exact (each item).bind fun _ => ih

theorem diagnose {message : BootM String} (composed : Discreet message) (level : Level)
    (target : String) : Discreet (BootM.diagnose level target message) :=
  looking (fun _ => rfl) fun _ => .ite (composed.bind fun text => print level target text) (pure _)

theorem storedFeatures : Discreet BootM.storedFeatures := by
  refine looking (fun _ => rfl) fun machine => ?_
  cases machine.shared.features machine.area with
  | ok record => exact pure _
  | error stop => exact throw stop

theorem reportFeatures (record : FeatureRecord) : Discreet (BootM.reportFeatures record) :=
  diagnose ((onHart HartM.hartId).bind fun _ => pure _) _ _

theorem reinit (platform : Platform) : Discreet (BootM.reinit platform) := by
  refine looking (fun _ => rfl) fun machine => ?_
  cases machine.shared.featureOffset with
  | none => exact pure _
  | some offset => exact onHart _

theorem carryOut (domain : String) (verdict : Verdict) :
    Discreet (BootM.carryOut domain verdict) := by
  cases verdict with
  | placed region settings => exact onHart _
  | unprotectable region error => exact diagnose (pure _) _ _
  | noRoom region => exact diagnose (pure _) _ _
  | unencodable region error => exact diagnose (pure _) _ _
  | exhausted regions => exact diagnose (pure _) _ _

theorem configure (record : FeatureRecord) (domain : Domain) :
    Discreet (BootM.configure record domain) := by
  refine .ite (pure _) ((forM (carryOut domain.name)).bind fun _ => ?_)
  refine (onHart HartM.hartId).bind fun _ => .ite ?_ (pure _)
  exact (diagnose (pure _) _ _).bind fun _ => pure _

theorem switchMode (request : ModeSwitch) (arg0 arg1 : Word) :
    Discreet (BootM.switchMode request arg0 arg1) := by
  refine (onHart request.prepare).bind fun prepared => ?_
  cases prepared with
  | ok prepared => exact onHart _
  | error error =>
    exact (diagnose ((onHart HartM.hartId).bind fun _ => pure _) _ _).bind fun _ => onHart _

/-- Apart from printing, a discreet action leaves the memory as it is, whether it ends or stops. -/
theorem memory {action : BootM α} (discreet : Discreet action) (machine : Machine) :
    (finalMachine action machine).area = machine.area ∧
      (finalMachine action machine).shared.silent = machine.shared.silent := by
  induction discreet generalizing machine with
  | pure result => exact ⟨rfl, rfl⟩
  | throw stop => exact ⟨rfl, rfl⟩
  | onHart action =>
    simp only [finalMachine, BootM.onHart]
    cases action machine.hart with
    | ok result final => exact ⟨rfl, rfl⟩
    | error stop final => exact ⟨rfl, rfl⟩
  | @bind α β action next first second ihFirst ihSecond =>
    have start := ihFirst machine
    cases ran : action machine with
    | ok result paused =>
      rw [finalMachine_of_ok ran] at start
      rw [finalMachine_bind_of_ok ran]
      have rest := ihSecond result paused
      exact ⟨rest.1.trans start.1, rest.2.trans start.2⟩
    | error stop final =>
      rw [finalMachine, ran] at start
      rw [finalMachine_bind_of_error ran]
      exact start
  | looking blind follows ih => exact ih machine machine
  | print level target text =>
    exact ⟨rfl, congrArg (fun terminal => { machine.shared with terminal })
      (machine.shared.terminal.silent_record level target text)⟩

end Discreet

variable {machine : Machine} {platform : Platform} {cold : Bool} {shared : Shared}
  {offset : Offset FeatureRecord}

/-- Before there is a place for the feature record, a cold boot reserves one if there is room. -/
theorem featureOffset_of_none (missing : machine.shared.featureOffset = none) (cold : Bool) :
    featureOffset cold machine =
      if cold then
        match machine.shared.offsets.alloc? FeatureRecord with
        | some (offset, offsets) => .ok (.ok offset)
            { machine with shared := { machine.shared with offsets, featureOffset := some offset } }
        | none => .ok (.error .noMemory) machine
      else .ok (.error .uninitialized) machine := by
  rw [featureOffset_eq, missing, Shared.reserveFeatures, missing]
  cases machine.shared.offsets.alloc? FeatureRecord <;> rfl

/-- A place for the feature record was there before, or a cold boot has reserved it. -/
theorem of_featureOffset_ok
    (given : featureOffset cold machine = .ok (.ok offset) { machine with shared }) :
    machine.shared.featureOffset = some offset ∧ shared = machine.shared ∨
      machine.shared.featureOffset = none ∧
        ∃ offsets, machine.shared.offsets.alloc? FeatureRecord = some (offset, offsets) ∧
          shared = { machine.shared with offsets, featureOffset := some offset } := by
  cases found : machine.shared.featureOffset with
  | some place =>
    rw [featureOffset_of_reserved found] at given
    obtain ⟨same, unchanged⟩ := EStateM.Result.ok.inj given
    exact .inl ⟨congrArg some (Except.ok.inj same), (congrArg Machine.shared unchanged).symm⟩
  | none =>
    rw [featureOffset_of_none found] at given
    split at given
    · split at given
      next place offsets reserved =>
        obtain ⟨same, changed⟩ := EStateM.Result.ok.inj given
        obtain rfl := Except.ok.inj same
        exact .inr ⟨rfl, offsets, reserved, (congrArg Machine.shared changed).symm⟩
      next => cases given
    · cases given

/-- Without a place for the feature record, initialization fails before it does anything. -/
theorem finalMachine_init_of_refused {error : HartError}
    (refused : featureOffset cold machine = .ok (.error error) machine) :
    finalMachine (init platform cold) machine = machine := by
  rw [init, finalMachine_bind_of_ok refused]
  rfl

/-- With a place for the feature record, the record is put there if detection ends, and nothing else
changes in the memory, however initialization goes on. -/
theorem memory_init_of_given (platform : Platform)
    (given : featureOffset cold machine = .ok (.ok offset) { machine with shared }) :
    (finalMachine (init platform cold) machine).area =
        (match HartM.detect machine.hart with
        | .ok record _ => machine.area.put offset record
        | .error _ _ => machine.area) ∧
      (finalMachine (init platform cold) machine).shared.silent = shared.silent := by
  rw [init, finalMachine_bind_of_ok given]
  dsimp only
  cases ran : HartM.detect machine.hart with
  | error stop hart =>
    have stopped : onHart HartM.detect { machine with shared } =
        .error stop { machine with shared, hart } := onHart_eq_error_iff.mpr ⟨hart, ran, rfl⟩
    rw [finalMachine_bind_of_error stopped]
    exact ⟨rfl, rfl⟩
  | ok record hart =>
    have detected : onHart HartM.detect { machine with shared } =
        .ok record { machine with shared, hart } := onHart_eq_ok_iff.mpr ⟨hart, ran, rfl⟩
    rw [finalMachine_bind_of_ok detected, finalMachine_bind_of_ok (modify_eq _ _)]
    exact ((Discreet.reportFeatures record).bind fun _ => .reinit platform).memory _

/-- Initialization does not have to reserve a place for the feature record again. -/
theorem silent_init_of_reserved (reserved : machine.shared.featureOffset = some offset)
    (platform : Platform) (cold : Bool) :
    (finalMachine (init platform cold) machine).shared.silent = machine.shared.silent := by
  have given : featureOffset cold machine = .ok (.ok offset) { machine with shared := machine.shared } :=
    featureOffset_of_reserved reserved
  exact (memory_init_of_given platform given).2

end BootM

/-- What a hart has done to the machine, it has done to the cluster. -/
theorem Cluster.perform_snd {α : Type} (cluster : Cluster) (hart area : Nat) (action : BootM α) :
    (cluster.perform hart area action).2 =
      cluster.settle hart area (BootM.finalMachine action (cluster.machine hart area)) := by
  rw [perform, BootM.finalMachine]
  cases action (cluster.machine hart area) <;> rfl

end HartBoot
