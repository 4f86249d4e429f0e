import HartBoot.Proofs.Reach

/-! # What a hart can be made to do

A hart can be asked for single accesses, for calls, and for the parts of calls that can be had by
themselves. Operations come in any order, and each of them goes on from what the ones before have
left, whether these ended, failed or stopped the hart. As every operation is made up of accesses, a
machine that has gone through operations is one that it can have become by accepted writes.
-/

namespace HartBoot

/-- A single access that a hart is asked for. -/
inductive AccessRequest where
  | probeRead (csr : Csr)
  | probeWrite (csr : Csr) (value : Word)
  | read (csr : Csr)
  | write (csr : Csr) (value : Word)
  | swap (csr : Csr) (value : Word)
  | clearFloat
  | wait
  | enter (arg0 arg1 : Word)
deriving DecidableEq, Repr

namespace AccessRequest

/-- What a hart does when it is asked for an access. It answers with the trap that was raised, or with
the value that was found if there is one. -/
def action : AccessRequest → HartM (Except TrapRecord (Option Word))
  | .probeRead csr => return (← HartM.probeRead csr).map some
  | .probeWrite csr value => return (← HartM.probeWrite csr value).map fun _ => none
  | .read csr => return .ok (some (← HartM.read csr))
  | .write csr value => do
    HartM.write csr value
    return .ok none
  | .swap csr value => return .ok (some (← HartM.swap csr value))
  | .clearFloat => do
    HartM.clearFloat
    return .ok none
  | .wait => do
    let never ← HartM.wait
    never.elim
  | .enter arg0 arg1 => do
    let never ← HartM.enter arg0 arg1
    never.elim

theorem writes_action (request : AccessRequest) :
    HartM.Writes (fun _ => True) request.action := by
  cases request with
  | probeRead csr => exact (HartM.Writes.probeRead csr).bind fun _ => .pure _
  | probeWrite csr value => exact (HartM.Writes.probeWrite trivial value).bind fun _ => .pure _
  | read csr => exact (HartM.Writes.read csr).bind fun _ => .pure _
  | write csr value => exact (HartM.Writes.write trivial value).bind fun _ => .pure _
  | swap csr value => exact (HartM.Writes.swap trivial value).bind fun _ => .pure _
  | clearFloat => exact (HartM.Writes.clearFloat trivial).bind fun _ => .pure _
  | wait => exact HartM.writes_wait.bind fun never => never.elim
  | enter arg0 arg1 => exact (HartM.writes_enter arg0 arg1).bind fun never => never.elim

end AccessRequest

/-- Anything that a hart is made to do: a single access, a call, or what calls are made up of where it
can be had by itself. -/
inductive HartOperation where
  | access (request : AccessRequest)
  | call (request : HartCall)
  | protect (protection : Protection) (entry : Nat)
  | delegationText (before after : String)
  | hasExtension (extension : Char)
  | hartId
  | commit (prepared : PreparedSwitch) (arg0 arg1 : Word)
  | hang

namespace HartOperation

open BootM

/-- What an operation leaves of a machine, whether it ends, fails or stops the hart. -/
def leaves (operation : HartOperation) (machine : Machine) : Machine :=
  match operation with
  | .access request => finalMachine (onHart request.action) machine
  | .call request => finalMachine request.action machine
  | .protect protection entry => finalMachine (onHart (HartM.protect protection entry)) machine
  | .delegationText before after =>
    finalMachine (onHart (HartM.delegationText before after)) machine
  | .hasExtension extension => finalMachine (onHart (HartM.hasExtension extension)) machine
  | .hartId => finalMachine (onHart HartM.hartId) machine
  | .commit prepared arg0 arg1 => finalMachine (onHart (prepared.commit arg0 arg1)) machine
  | .hang => finalMachine (onHart HartM.hang) machine

/-- Every operation is made up of accesses and of looking for a place for the feature record. -/
theorem descends_leaves (operation : HartOperation) (machine : Machine) :
    machine.Descends (fun _ => True) (operation.leaves machine) := by
  cases operation with
  | access request => exact (Within.onHart request.writes_action).descends machine
  | call request => exact request.within.descends machine
  | protect protection entry =>
    have writes : HartM.Writes (fun _ => True) (HartM.protect protection entry) :=
      HartM.writes_protect (fun _ => ⟨trivial, trivial⟩) protection entry
    exact (Within.onHart writes).descends machine
  | delegationText before after =>
    exact (Within.onHart (HartM.writes_delegationText before after)).descends machine
  | hasExtension extension =>
    exact (Within.onHart (HartM.Writes.hasExtension extension)).descends machine
  | hartId => exact (Within.onHart (HartM.Writes.read .mhartid)).descends machine
  | commit prepared arg0 arg1 =>
    exact (Within.onHart (HartM.writes_enter arg0 arg1)).descends machine
  | hang => exact (Within.onHart HartM.writes_wait).descends machine

end HartOperation

namespace Machine

/-- The machine after operations in turn. -/
def operateAll (machine : Machine) (operations : List HartOperation) : Machine :=
  operations.foldl (fun machine operation => operation.leaves machine) machine

theorem descends_operateAll (machine : Machine) (operations : List HartOperation) :
    machine.Descends (fun _ => True) (machine.operateAll operations) := by
  induction operations generalizing machine with
  | nil => exact .refl _ machine
  | cons operation rest ih =>
    exact (operation.descends_leaves machine).trans (ih (operation.leaves machine))

end Machine

end HartBoot
