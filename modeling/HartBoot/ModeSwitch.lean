import HartBoot.Machine
import HartBoot.Privilege
import HartBoot.Status

/-! # Leaving machine mode

A hart leaves machine mode for the next boot stage in three steps, each of which needs the one
before. The mode that is asked for must exist and be implemented. Then the machine state is set up
for a return to that mode, which is checked by reading it back; supervisor mode, and user mode
with interrupts of its own, start with interrupts off and trapping to their entry point. Only then
does the hart return. A hart that gets stuck on the way reports why and halts.
-/

namespace HartBoot

/-- The reasons for which a hart stays in machine mode. -/
inductive SwitchError where
  /-- No mode has this encoding. -/
  | unsupportedMode (encoding : Word)
  /-- The hart does not implement the mode. -/
  | missingExtension (mode : PrivilegeMode)
  /-- A field of a register does not hold what was written to it. -/
  | inconsistent (csr : Csr) (expected found : Word)
deriving DecidableEq, Repr

/-- The sentence reporting why a hart stays in machine mode. -/
def SwitchError.message : SwitchError → String
  | .unsupportedMode encoding => "invalid privilege mode " ++ toString encoding.toNat
  | .missingExtension mode => mode.text ++ " not implemented"
  | .inconsistent csr expected found =>
    csr.text ++ " reads back " ++ hex found.toNat ++ " instead of " ++ hex expected.toNat

/-- A request to enter a mode at an address. -/
structure ModeSwitch where
  entry : Word
  /-- Encoding of the mode. -/
  mode : Word
  /-- Enter as a guest, if the hart has the hypervisor extension. -/
  virtualized : Bool
deriving DecidableEq, Repr

/-- A request for a mode that the hart implements. -/
structure ValidSwitch where
  entry : Word
  mode : PrivilegeMode
  virtualized : Bool
deriving DecidableEq, Repr

/-- A mode that the hart is set up to enter. -/
structure PreparedSwitch where
  mode : PrivilegeMode
deriving DecidableEq, Repr

namespace ModeSwitch

/-- Check that the hart implements the mode that is asked for. -/
def validate (request : ModeSwitch) : HartM (Except SwitchError ValidSwitch) := do
  match PrivilegeMode.ofBits? request.mode with
  | none => return .error (.unsupportedMode request.mode)
  | some mode =>
    let implemented ← match mode with
      | .machine => pure true
      | .supervisor => HartM.hasExtension 'S'
      | .user => HartM.hasExtension 'U'
    if implemented then
      return .ok { entry := request.entry, mode, virtualized := request.virtualized }
    else return .error (.missingExtension mode)

end ModeSwitch

namespace ValidSwitch

/-- The machine status from which a return enters the mode. -/
def status (request : ValidSwitch) (hypervisor : Bool) (current : Word) : Word :=
  let returning := Status.mpie.insert (Status.mpp.insert current request.mode.bits) 0
  if hypervisor then Status.mpv.insert returning (if request.virtualized then 1 else 0)
  else returning

/-- Set up the registers of the mode itself. -/
def prepareMode (request : ValidSwitch) : HartM Unit := do
  match request.mode with
  | .supervisor =>
    HartM.write .stvec request.entry
    HartM.write .sscratch 0
    HartM.write .sie 0
    HartM.write .satp 0
  | .user =>
    if ← HartM.hasExtension 'N' then
      HartM.write .utvec request.entry
      HartM.write .uscratch 0
      HartM.write .uie 0
  | .machine => return ()

/-- Set up the hart for a return to the mode. -/
def prepare (request : ValidSwitch) : HartM (Except SwitchError PreparedSwitch) := do
  let hypervisor ← HartM.hasExtension 'H'
  let current ← HartM.read .mstatus
  HartM.write .mstatus (request.status hypervisor current)
  let found := Status.mpp.extract (← HartM.read .mstatus)
  if found = request.mode.bits then
    HartM.write .mepc request.entry
    request.prepareMode
    return .ok { mode := request.mode }
  else return .error (.inconsistent .mstatus request.mode.bits found)

end ValidSwitch

/-- Leave machine mode, handing two arguments over. -/
def PreparedSwitch.commit (_ : PreparedSwitch) (arg0 arg1 : Word) : HartM Empty :=
  HartM.enter arg0 arg1

/-- Check a request and set the hart up for it. -/
def ModeSwitch.prepare (request : ModeSwitch) : HartM (Except SwitchError PreparedSwitch) := do
  match ← request.validate with
  | .ok valid => valid.prepare
  | .error error => return .error error

namespace BootM

/-- The source of diagnostics on mode switches. -/
def switchTarget : String := "rvsbi::hart::switch"

/-- Enter a mode, or report why not and halt. -/
def switchMode (request : ModeSwitch) (arg0 arg1 : Word) : BootM Empty := do
  match ← onHart request.prepare with
  | .ok prepared => onHart (prepared.commit arg0 arg1)
  | .error error =>
    diagnose .error switchTarget do
      let hart := (← onHart HartM.hartId).toNat
      let mode := request.mode.toNat
      let entry := hex request.entry.toNat
      let reason := error.message
      return s!"hart{hart}: cannot switch to mode {mode} at {entry}: {reason}"
    onHart HartM.hang

end BootM

end HartBoot
