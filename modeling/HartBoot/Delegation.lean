import HartBoot.Features
import HartBoot.Flags.Trap
import HartBoot.Hart

/-! # Which traps supervisor mode handles

Machine mode hands supervisor-level interrupts over, and those exceptions that a supervisor can
act on. With the hypervisor extension, calls from user mode stay in machine mode and the traps of
guests are handed over. Page faults are handed over where the platform asks for it.
-/

namespace HartBoot

/-- What the platform decides about its harts. -/
structure Platform where
  /-- Supervisor mode handles its page faults without going through machine mode. -/
  delegatesPageFaults : Bool := false
deriving DecidableEq, Repr

/-- Content of the delegation registers. -/
structure Delegation where
  interrupts : Interrupts
  exceptions : Exceptions
deriving DecidableEq, Repr

namespace Delegation

/-- The traps delegated by a hart with the given features. -/
def policy (record : FeatureRecord) (hypervisor pageFaults : Bool) : Delegation :=
  let supervisor := Interrupts.ssip ∪ Interrupts.stip ∪ Interrupts.seip
  let common := Exceptions.ofList [.fetchMisaligned, .breakpoint, .userCall]
  let guest := Exceptions.ofList
    [.virtualSupervisorCall, .fetchGuestPage, .loadGuestPage, .virtualInstruction, .storeGuestPage]
  let paging := Exceptions.ofList [.fetchPage, .loadPage, .storePage]
  let base := if hypervisor then common \ Exceptions.single .userCall ∪ guest else common
  { interrupts :=
      if record.has FeatureFlags.sscofpmf then supervisor ∪ Interrupts.lcofip else supervisor
    exceptions := if pageFaults then base ∪ paging else base }

end Delegation

namespace HartM

/-- Delegate traps, on a hart that has supervisor mode. -/
def delegateTraps (record : FeatureRecord) (platform : Platform) : HartM Unit := do
  if ← hasExtension 'S' then
    let hypervisor ← hasExtension 'H'
    let delegation := Delegation.policy record hypervisor platform.delegatesPageFaults
    write .mideleg delegation.interrupts.bits
    write .medeleg delegation.exceptions.bits

/-- The delegation registers, each on a line of its own between the given texts. A hart without
supervisor mode has none. -/
def delegationText (before after : String) : HartM String := do
  if ← hasExtension 'S' then
    let interrupts := hexPadded 16 (← read .mideleg).toNat
    let exceptions := hexPadded 16 (← read .medeleg).toNat
    return before ++ "MIDELEG" ++ after ++ ": " ++ interrupts ++ "\n"
      ++ before ++ "MEDELEG" ++ after ++ ": " ++ exceptions ++ "\n"
  else return ""

end HartM

end HartBoot
