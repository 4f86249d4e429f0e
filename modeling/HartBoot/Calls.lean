import HartBoot.Cluster

/-! # Calls on harts

The steps of the boot software take their feature record from the scratch area of the hart, and the
last one of them leaves machine mode in one go. A caller may also hand a record over, and may check
and prepare a mode switch without performing it. Calls come in any order, on any hart and with any
scratch area at hand, and each of them is answered, or tells why its hart stopped.
-/

namespace HartBoot

/-- A call on a hart. -/
inductive HartCall where
  | boot (step : BootStep)
  /-- Protect the memory of a domain as the given record allows. -/
  | configure (record : FeatureRecord) (domain : Domain)
  | validate (request : ModeSwitch)
  | prepare (request : ValidSwitch)

/-- What a call answers when it ends. -/
inductive HartAnswer where
  | booted (answer : BootAnswer)
  | configured (report : PmpReport)
  | validated (result : Except SwitchError ValidSwitch)
  | prepared (result : Except SwitchError PreparedSwitch)

/-- What a hart does in a call. -/
def HartCall.action : HartCall → BootM HartAnswer
  | .boot step => return .booted (← step.action)
  | .configure record domain => return .configured (← BootM.configure record domain)
  | .validate request => return .validated (← BootM.onHart request.validate)
  | .prepare request => return .prepared (← BootM.onHart request.prepare)

/-- A call on a hart that is given a scratch area, both by their numbers. -/
structure HartTurn where
  hart : Nat
  area : Nat
  call : HartCall

namespace Cluster

/-- Let harts serve calls in turn, each answer telling how its call ended or why the hart stopped. -/
def serve : Cluster → List HartTurn → List (Except Stop HartAnswer) × Cluster
  | cluster, [] => ([], cluster)
  | cluster, turn :: rest =>
    let (answer, next) := cluster.perform turn.hart turn.area turn.call.action
    let (answers, final) := next.serve rest
    (answer :: answers, final)

/-- The cluster with another terminal. -/
def withTerminal (cluster : Cluster) (terminal : Terminal) : Cluster :=
  { cluster with shared := { cluster.shared with terminal } }

end Cluster

end HartBoot
