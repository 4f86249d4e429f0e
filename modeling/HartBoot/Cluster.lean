import Mathlib.Logic.Function.Basic
import HartBoot.Boot
import HartBoot.ModeSwitch
import HartBoot.Pmp.Configure
import HartBoot.Scratch.Cell

/-! # Harts that share a machine

A cluster is made up of harts and scratch areas, by their numbers, and of what they share. One hart
works on one area at a time, and what it does to itself, to the area and to the shared state stays
when it is done, even if it was stopped. Other parts of the firmware reserve scratch memory as well
and use it in every area, but only through the offsets that were handed out to them.
-/

namespace HartBoot

/-- Harts with their scratch areas. -/
structure Cluster where
  harts : Nat → Hart
  areas : Nat → Area
  shared : Shared
  /-- The cells that other parts of the firmware were given, the latest one first. -/
  cells : List Cell := []

namespace Cluster

/-- A cluster in which nothing has been initialized: scratch areas are filled with zeros, and
nothing is reserved in them. -/
def pristine (harts : Nat → Hart) (terminal : Terminal) : Cluster where
  harts
  areas _ := .blank
  shared := { terminal }

/-- What a hart works on when it is given a scratch area. -/
def machine (cluster : Cluster) (hart area : Nat) : Machine :=
  ⟨cluster.harts hart, cluster.areas area, cluster.shared⟩

/-- The cluster once a hart that was given a scratch area is done with it. -/
def settle (cluster : Cluster) (hart area : Nat) (machine : Machine) : Cluster :=
  { cluster with
    harts := Function.update cluster.harts hart machine.hart
    areas := Function.update cluster.areas area machine.area
    shared := machine.shared }

/-- Let a hart that is given a scratch area perform an action. -/
def perform {α : Type} (cluster : Cluster) (hart area : Nat) (action : BootM α) :
    Except Stop α × Cluster :=
  match action (cluster.machine hart area) with
  | .ok result machine => (.ok result, cluster.settle hart area machine)
  | .error stop machine => (.error stop, cluster.settle hart area machine)

end Cluster

/-- A call that initializes a hart of a cluster, or that uses scratch memory for something else. -/
inductive ClusterCall where
  | init (hart area : Nat) (platform : Platform) (cold : Bool)
  | reinit (hart area : Nat) (platform : Platform)
  | alloc (kind : ItemKind)
  | put (area : Nat) (cell : Cell) (item : cell.kind.Carrier)

namespace Cluster

/-- The cluster after a call, whether the call succeeded, failed or stopped a hart. -/
def run (cluster : Cluster) : ClusterCall → Cluster
  | .init hart area platform cold => (cluster.perform hart area (BootM.init platform cold)).2
  | .reinit hart area platform => (cluster.perform hart area (BootM.reinit platform)).2
  | .alloc kind =>
    match cluster.shared.offsets.alloc? kind.Carrier with
    | some (offset, offsets) =>
      { cluster with
        shared := { cluster.shared with offsets }
        cells := ⟨kind, offset⟩ :: cluster.cells }
    | none => cluster
  | .put area cell item =>
    { cluster with
      areas := Function.update cluster.areas area ((cluster.areas area).put cell.offset item) }

/-- The cluster after calls in turn. -/
def runAll (cluster : Cluster) (calls : List ClusterCall) : Cluster := calls.foldl run cluster

/-- Scratch memory is written to through offsets that were handed out for that. -/
def Permits (cluster : Cluster) : ClusterCall → Prop
  | .put _ cell _ => cell ∈ cluster.cells
  | .init .. | .reinit .. | .alloc _ => True

instance (cluster : Cluster) : (call : ClusterCall) → Decidable (cluster.Permits call)
  | .put _ cell _ => inferInstanceAs (Decidable (cell ∈ cluster.cells))
  | .init .. | .reinit .. | .alloc _ => inferInstanceAs (Decidable True)

/-- Each call of a sequence is permitted when its turn comes. -/
def PermitsAll : Cluster → List ClusterCall → Prop
  | _, [] => True
  | cluster, call :: rest => cluster.Permits call ∧ (cluster.run call).PermitsAll rest

instance decidablePermitsAll (cluster : Cluster) :
    (calls : List ClusterCall) → Decidable (cluster.PermitsAll calls)
  | [] => inferInstanceAs (Decidable True)
  | call :: rest =>
    have := decidablePermitsAll (cluster.run call) rest
    inferInstanceAs (Decidable (_ ∧ _))

end Cluster

/-- A step of the boot software that a hart executes. -/
inductive BootStep where
  | init (platform : Platform) (cold : Bool)
  | reinit (platform : Platform)
  | detect
  /-- Protect the memory of a domain, as the record in the scratch area of the hart allows. -/
  | configure (domain : Domain)
  /-- Delegate traps by the given record, or else by the one in the scratch area of the hart. -/
  | delegateTraps (record : Option FeatureRecord) (platform : Platform)
  | setBlock (entry : Nat) (flags : PmpFlags) (base : Word) (order : Nat)
  | setRange (entry : Nat) (flags : PmpFlags) (start limit : Word)
  | switchMode (request : ModeSwitch) (arg0 arg1 : Word)

/-- What a step answers when it ends. -/
inductive BootAnswer where
  | initialized (result : Except HartError Unit)
  | detected (record : FeatureRecord)
  | configured (report : PmpReport)
  | delegated
  | programmed (result : Except PmpError Unit)

namespace BootM

/-- The record in the scratch area of the hart. -/
def storedFeatures : BootM FeatureRecord := do
  let machine ← get
  match machine.shared.features machine.area with
  | .ok record => return record
  | .error stop => throw stop

end BootM

/-- What a hart does in a step. -/
def BootStep.action : BootStep → BootM BootAnswer
  | .init platform cold => return .initialized (← BootM.init platform cold)
  | .reinit platform => return .initialized (← BootM.reinit platform)
  | .detect => return .detected (← BootM.onHart HartM.detect)
  | .configure domain => do
    let record ← BootM.storedFeatures
    return .configured (← BootM.configure record domain)
  | .delegateTraps given platform => do
    let record ← match given with
      | some record => pure record
      | none => BootM.storedFeatures
    BootM.onHart (HartM.delegateTraps record platform)
    return .delegated
  | .setBlock entry flags base order =>
    return .programmed (← BootM.onHart (HartM.setBlock entry flags base order))
  | .setRange entry flags start limit =>
    return .programmed (← BootM.onHart (HartM.setRange entry flags start limit))
  | .switchMode request arg0 arg1 => do
    let never ← BootM.switchMode request arg0 arg1
    never.elim

namespace Cluster

/-- Let harts take steps in turn, each of them on its own scratch area. Every step answers for the
hart that took it, or tells why that hart stopped. -/
def follow (home : Nat → Nat) :
    Cluster → List (Nat × BootStep) → List (Nat × Except Stop BootAnswer) × Cluster
  | cluster, [] => ([], cluster)
  | cluster, (hart, step) :: rest =>
    let (answer, next) := cluster.perform hart (home hart) step.action
    let (answers, final) := follow home next rest
    ((hart, answer) :: answers, final)

end Cluster

end HartBoot
