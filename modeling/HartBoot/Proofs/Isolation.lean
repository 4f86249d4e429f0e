import HartBoot.Proofs.Discretion
import HartBoot.Proofs.Establishment

/-! # Harts do not disturb each other

Once the place of the feature record is reserved, what harts share stays as it is but for the text
that they print, and no hart ever looks at that text. A hart that has a scratch area of its own then
goes through its steps as if it were alone: whatever other harts do in between, and even if they
fail or are stopped, it gets the same answers, and ends with the same registers, the same history
and the same memory.
-/

namespace HartBoot

namespace BootM

variable {α β : Type}

/-- How an action ends or stops, and what it leaves apart from what it printed. -/
def outcome (action : BootM α) (machine : Machine) : Except Stop α × Machine :=
  match action machine with
  | .ok result final => (.ok result, final.silent)
  | .error stop final => (.error stop, final.silent)

theorem outcome_of_ok {action : BootM α} {machine final : Machine} {result : α}
    (ran : action machine = .ok result final) :
    outcome action machine = (.ok result, final.silent) := by
  rw [outcome, ran]

theorem outcome_of_error {action : BootM α} {machine final : Machine} {stop : Stop}
    (stopped : action machine = .error stop final) :
    outcome action machine = (.error stop, final.silent) := by
  rw [outcome, stopped]

/-- What was printed before makes no difference to an action. -/
def Oblivious (action : BootM α) : Prop :=
  ∀ machine : Machine, outcome action machine.silent = outcome action machine

namespace Oblivious

/-- An action goes on in the same way from machines that differ in what was printed. -/
theorem congr {action : BootM α} (oblivious : Oblivious action) {left right : Machine}
    (same : left.silent = right.silent) : outcome action left = outcome action right := by
  rw [← oblivious left, same, oblivious right]

theorem pure (result : α) : Oblivious (Pure.pure result : BootM α) := fun _ => rfl

/-- An action whose continuation does not care about what was printed goes on from what is left
apart from that. -/
theorem outcome_bind (action : BootM α) {next : α → BootM β}
    (follows : ∀ result, Oblivious (next result)) (machine : Machine) :
    outcome (action >>= next) machine =
      match outcome action machine with
      | (.ok result, paused) => outcome (next result) paused
      | (.error stop, final) => (.error stop, final) := by
  cases ran : action machine with
  | ok result paused =>
    rw [outcome_of_ok ran, outcome, bind_ok ran]
    exact (follows result paused).symm
  | error stop final =>
    rw [outcome_of_error ran]
    simp only [outcome, Bind.bind, EStateM.bind, ran]

theorem bind {action : BootM α} {next : α → BootM β} (first : Oblivious action)
    (second : ∀ result, Oblivious (next result)) : Oblivious (action >>= next) := fun machine => by
  rw [outcome_bind action second, outcome_bind action second, first machine]

theorem onHart (action : HartM α) : Oblivious (BootM.onHart action) := by
  rintro ⟨hart, area, shared⟩
  simp only [outcome, BootM.onHart, Machine.silent]
  cases action hart <;> rfl

/-- A change that does not look at what was printed. -/
theorem change {step : Machine → Machine}
    (blind : ∀ machine, (step machine.silent).silent = (step machine).silent) :
    Oblivious (modify step : BootM PUnit) := fun machine =>
  congrArg (Prod.mk (Except.ok PUnit.unit)) (blind machine)

end Oblivious

theorem Discreet.oblivious {action : BootM α} (discreet : Discreet action) : Oblivious action := by
  induction discreet with
  | pure result => exact .pure result
  | throw stop => exact fun _ => rfl
  | onHart action => exact .onHart action
  | bind _ _ first second => exact first.bind second
  | @looking α next blind _ follows =>
    intro machine
    have same : outcome (get >>= next) machine.silent = outcome (next machine) machine.silent := by
      rw [← blind machine]
      rfl
    exact same.trans (follows machine machine)
  | print level target text =>
    refine .change fun machine => ?_
    simp only [Machine.silent, Shared.silent, Terminal.silent_record]
    rfl

namespace Oblivious

theorem featureOffset (cold : Bool) : Oblivious (BootM.featureOffset cold) := by
  intro machine
  cases found : machine.shared.featureOffset with
  | some offset =>
    have again : machine.silent.shared.featureOffset = some offset := found
    rw [outcome_of_ok (featureOffset_of_reserved again),
      outcome_of_ok (featureOffset_of_reserved found)]
    rfl
  | none =>
    have again : machine.silent.shared.featureOffset = none := found
    have same : machine.silent.shared.offsets = machine.shared.offsets := rfl
    rw [outcome, outcome, featureOffset_of_none again, featureOffset_of_none found, same]
    cases cold with
    | false => rfl
    | true => cases machine.shared.offsets.alloc? FeatureRecord <;> rfl

theorem init (platform : Platform) (cold : Bool) : Oblivious (BootM.init platform cold) := by
  refine (featureOffset cold).bind fun place => ?_
  cases place with
  | error error => exact pure _
  | ok offset =>
    refine (onHart HartM.detect).bind fun record => (change fun _ => rfl).bind fun _ => ?_
    exact ((Discreet.reportFeatures record).bind fun _ => .reinit platform).oblivious

end Oblivious

/-- What is said about the result makes no difference to the machine. -/
theorem finalMachine_bind_pure (action : BootM α) (answer : α → β) (machine : Machine) :
    finalMachine (action >>= fun result => Pure.pure (answer result)) machine =
      finalMachine action machine := by
  cases ran : action machine with
  | ok result final =>
    rw [finalMachine_bind_of_ok ran, finalMachine_of_ok ran]
    rfl
  | error stop final => rw [finalMachine_bind_of_error ran, finalMachine, ran]

end BootM

namespace BootStep

open BootM

/-- All steps but initialization leave the memory alone. -/
theorem init_or_discreet (step : BootStep) :
    (∃ platform cold, step = .init platform cold) ∨ Discreet step.action := by
  cases step with
  | init platform cold => exact .inl ⟨platform, cold, rfl⟩
  | reinit platform => exact .inr ((Discreet.reinit platform).bind fun _ => .pure _)
  | detect => exact .inr ((Discreet.onHart HartM.detect).bind fun _ => .pure _)
  | configure domain =>
    refine .inr (Discreet.storedFeatures.bind fun record => ?_)
    exact (Discreet.configure record domain).bind fun _ => .pure _
  | delegateTraps given platform =>
    have delegates (record : FeatureRecord) : Discreet (do
        onHart (HartM.delegateTraps record platform)
        return BootAnswer.delegated) := (Discreet.onHart _).bind fun _ => .pure _
    cases given with
    | some record => exact .inr ((Discreet.pure record).bind delegates)
    | none => exact .inr (Discreet.storedFeatures.bind delegates)
  | setBlock entry flags base order => exact .inr ((Discreet.onHart _).bind fun _ => .pure _)
  | setRange entry flags start limit => exact .inr ((Discreet.onHart _).bind fun _ => .pure _)
  | switchMode request arg0 arg1 =>
    exact .inr ((Discreet.switchMode request arg0 arg1).bind fun never => never.elim)

theorem oblivious (step : BootStep) : Oblivious step.action := by
  rcases step.init_or_discreet with ⟨platform, cold, rfl⟩ | discreet
  · exact (Oblivious.init platform cold).bind fun _ => .pure _
  · exact discreet.oblivious

/-- With a place for the feature record, a step leaves what harts share as it is, apart from what it
prints. Initialization does not have to reserve the place again. -/
theorem quiet (step : BootStep) (machine : Machine) {offset : Offset FeatureRecord}
    (reserved : machine.shared.featureOffset = some offset) :
    (finalMachine step.action machine).shared.silent = machine.shared.silent := by
  rcases step.init_or_discreet with ⟨platform, cold, rfl⟩ | discreet
  · rw [action, finalMachine_bind_pure]
    exact silent_init_of_reserved reserved platform cold
  · exact (discreet.memory machine).2

end BootStep

namespace Cluster

variable {cluster alone : Cluster} {hart area : Nat}

/-- What a hart can tell of a cluster: itself, its area, and what is shared apart from what was
printed. -/
def view (cluster : Cluster) (hart area : Nat) : Machine := (cluster.machine hart area).silent

/-- A hart that performs an action gets an answer and sees what the action leaves behind. -/
theorem perform_own {α : Type} (cluster : Cluster) (hart area : Nat) (action : BootM α) :
    ((cluster.perform hart area action).1, (cluster.perform hart area action).2.view hart area) =
      BootM.outcome action (cluster.machine hart area) := by
  have settled (final : Machine) :
      (cluster.settle hart area final).view hart area = final.silent := by
    simp only [view, settle, machine, Function.update_self]
  rw [perform, BootM.outcome]
  cases action (cluster.machine hart area) with
  | ok result final => exact congrArg _ (settled final)
  | error stop final => exact congrArg _ (settled final)

/-- A hart does not see what another one does to itself and to an area of its own. -/
theorem view_perform_of_ne {α : Type} {other elsewhere : Nat} {action : BootM α}
    (distinct : other ≠ hart) (apart : elsewhere ≠ area)
    (quiet : (BootM.finalMachine action (cluster.machine other elsewhere)).shared.silent =
      cluster.shared.silent) :
    (cluster.perform other elsewhere action).2.view hart area = cluster.view hart area := by
  have kept (final : Machine) (same : final.shared.silent = cluster.shared.silent) :
      (cluster.settle other elsewhere final).view hart area = cluster.view hart area := by
    simp only [view, settle, machine, Machine.silent, Function.update_of_ne distinct.symm,
      Function.update_of_ne apart.symm, same]
  rw [perform_snd]
  exact kept _ quiet

variable {home : Nat → Nat} {offset : Offset FeatureRecord}

theorem follow_cons (home : Nat → Nat) (cluster : Cluster) (hart : Nat) (step : BootStep)
    (rest : List (Nat × BootStep)) :
    follow home cluster ((hart, step) :: rest) =
      ((hart, (cluster.perform hart (home hart) step.action).1) ::
          (follow home (cluster.perform hart (home hart) step.action).2 rest).1,
        (follow home (cluster.perform hart (home hart) step.action).2 rest).2) := rfl

/-- A step leaves what harts share as it is. -/
theorem silent_perform (reserved : cluster.shared.featureOffset = some offset) (hart area : Nat)
    (step : BootStep) :
    (cluster.perform hart area step.action).2.shared.silent = cluster.shared.silent := by
  rw [perform_snd]
  exact step.quiet (cluster.machine hart area) reserved

theorem featureOffset_perform (reserved : cluster.shared.featureOffset = some offset)
    (hart area : Nat) (step : BootStep) :
    (cluster.perform hart area step.action).2.shared.featureOffset = some offset :=
  (Shared.featureOffset_eq_of_silent (silent_perform reserved hart area step)).trans reserved

/-- Steps in turn leave what harts share as it is. -/
theorem silent_follow (reserved : cluster.shared.featureOffset = some offset) (home : Nat → Nat)
    (schedule : List (Nat × BootStep)) :
    (follow home cluster schedule).2.shared.silent = cluster.shared.silent := by
  induction schedule generalizing cluster with
  | nil => rfl
  | cons turn rest ih =>
    obtain ⟨hart, step⟩ := turn
    rw [follow_cons]
    exact (ih (featureOffset_perform reserved hart (home hart) step)).trans
      (silent_perform reserved hart (home hart) step)

/-- A step of a hart in two clusters that look the same to it. -/
theorem perform_congr (same : cluster.view hart area = alone.view hart area) (step : BootStep) :
    (cluster.perform hart area step.action).1 = (alone.perform hart area step.action).1 ∧
      (cluster.perform hart area step.action).2.view hart area =
        (alone.perform hart area step.action).2.view hart area := by
  have alike := (step.oblivious).congr same
  rw [← perform_own, ← perform_own] at alike
  exact Prod.mk.inj alike

/-- A hart with an area of its own sees the same and answers the same whether others take their
turns or not. -/
theorem follow_alike (reserved : cluster.shared.featureOffset = some offset)
    {schedule : List (Nat × BootStep)}
    (apart : ∀ turn ∈ schedule, turn.1 ≠ hart → home turn.1 ≠ home hart)
    (same : cluster.view hart (home hart) = alone.view hart (home hart)) :
    (follow home cluster schedule).1.filter (·.1 == hart) =
        (follow home alone (schedule.filter (·.1 == hart))).1 ∧
      (follow home cluster schedule).2.view hart (home hart) =
        (follow home alone (schedule.filter (·.1 == hart))).2.view hart (home hart) := by
  induction schedule generalizing cluster alone with
  | nil => exact ⟨rfl, same⟩
  | cons turn rest ih =>
    obtain ⟨other, step⟩ := turn
    have later := featureOffset_perform reserved other (home other) step
    have others := fun turn member => apart turn (List.mem_cons_of_mem _ member)
    by_cases own : other = hart
    · subst own
      obtain ⟨answer, view⟩ := perform_congr same step
      obtain ⟨answers, final⟩ := ih later others view
      rw [List.filter_cons_of_pos (by simp), follow_cons, follow_cons,
        List.filter_cons_of_pos (by simp), answers, answer]
      exact ⟨rfl, final⟩
    · have unseen := view_perform_of_ne own (apart (other, step) List.mem_cons_self own)
        (step.quiet (cluster.machine other (home other)) reserved)
      rw [List.filter_cons_of_neg (by simpa using own), follow_cons,
        List.filter_cons_of_neg (by simpa using own)]
      exact ih later others (unseen.trans same)

/-- Once the place of the feature record is reserved, a hart that has a scratch area of its own goes
through its steps as if no other hart took any, however their steps are interleaved: it gets the
same answers and ends with the same registers, history and memory. What is reserved of the scratch
memory stays as it is. -/
theorem follow_isolated (cluster : Cluster)
    (reserved : cluster.shared.featureOffset.isSome = true) (home : Nat → Nat)
    (schedule : List (Nat × BootStep)) (hart : Nat)
    (apart : ∀ turn ∈ schedule, turn.1 ≠ hart → home turn.1 ≠ home hart) :
    ∃ answers final last, follow home cluster schedule = (answers, final) ∧
      follow home cluster (schedule.filter (·.1 == hart)) =
        (answers.filter (·.1 == hart), last) ∧
      final.harts hart = last.harts hart ∧
      final.areas (home hart) = last.areas (home hart) ∧
      final.shared.offsets = cluster.shared.offsets ∧
      final.shared.featureOffset = cluster.shared.featureOffset := by
  obtain ⟨offset, found⟩ := Option.isSome_iff_exists.mp reserved
  obtain ⟨answers, view⟩ := follow_alike found apart rfl
  have quiet := silent_follow found home schedule
  refine ⟨_, _, _, rfl, Prod.ext answers.symm rfl, ?_, ?_,
    Shared.offsets_eq_of_silent quiet, Shared.featureOffset_eq_of_silent quiet⟩
  · exact congrArg Machine.hart view
  · exact congrArg Machine.area view

/-- Harts that are all alike, after the place of the feature record was reserved. -/
def reservedHarts : Cluster where
  harts _ := Machine.supervised.hart
  areas _ := .blank
  shared :=
    { offsets := ⟨32, 1, by decide⟩, featureOffset := some ⟨0, by decide, by decide⟩ }

end Cluster

/-- Two harts boot in turns. One of them asks for a protection entry that does not exist, and the
other one leaves for supervisor mode. -/
def BootStep.interleaved : List (Nat × BootStep) :=
  [(0, .init {} true), (1, .init {} true), (1, .setBlock 64 PmpFlags.read 0 12), (0, .detect),
    (1, .reinit {}), (0, .delegateTraps none {}), (0, .switchMode ⟨0x80200000, 1, false⟩ 0 0)]

namespace Cluster

theorem follow_isolated_reservedHarts :
    reservedHarts.shared.featureOffset.isSome = true ∧
      (∀ turn ∈ BootStep.interleaved, turn.1 ≠ 0 → id turn.1 ≠ id 0) ∧
      ∃ answers final last, follow id reservedHarts BootStep.interleaved = (answers, final) ∧
        follow id reservedHarts (BootStep.interleaved.filter (·.1 == 0)) =
          (answers.filter (·.1 == 0), last) ∧
        final.harts 0 = last.harts 0 ∧ final.areas 0 = last.areas 0 ∧
        final.shared.offsets = reservedHarts.shared.offsets ∧
        final.shared.featureOffset = reservedHarts.shared.featureOffset :=
  ⟨rfl, fun _ _ other => other,
    follow_isolated reservedHarts rfl id BootStep.interleaved 0 fun _ _ other => other⟩

end Cluster

end HartBoot
