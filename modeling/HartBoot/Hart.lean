import HartBoot.Hart.Register
import HartBoot.Misa
import HartBoot.Stop
import HartBoot.Trap

/-! # The hart and its accesses

A hart is a register file with a history. Guarded accesses report a trap and let the hart go on.
Unguarded ones stop it when the register is absent or, for writes, read-only. Plain reads leave no
mark; all other accesses are recorded in the order in which they are made, and so is every write
that a register accepted. For drills, guarded accesses to a register can be made to fail from some
point onwards.

An action on a hart is a state-passing computation that can stop. What happened to the hart before
it stopped is kept.
-/

namespace HartBoot

/-- An access with an effect of its own. -/
inductive Access where
  /-- A guarded read, with the value read unless it trapped. -/
  | probeRead (csr : Csr) (found : Option Word)
  /-- A guarded write, and whether it was accepted. -/
  | probeWrite (csr : Csr) (value : Word) (accepted : Bool)
  | write (csr : Csr) (value : Word)
  /-- An exchange, with the value written. -/
  | swap (csr : Csr) (value : Word)
  /-- The floating-point registers are cleared. -/
  | clearFloat
  /-- The hart waits for an interrupt. -/
  | wait
  /-- The hart leaves for the next boot stage. -/
  | enter (arg0 arg1 : Word)
deriving DecidableEq, Repr

/-- How an access is shown: a short word for its kind, the register, the value, and how a guarded
access ended. -/
def Access.text (access : Access) : String :=
  let shown := fun (word : String) (csr : Csr) => word ++ " " ++ hex csr.number.toNat ++ " "
  match access with
  | .probeRead csr found => shown "pr" csr ++ (found.elim "trap" fun value => hex value.toNat)
  | .probeWrite csr value accepted =>
    shown "pw" csr ++ hex value.toNat ++ (if accepted then " ok" else " trap")
  | .write csr value => shown "w" csr ++ hex value.toNat
  | .swap csr value => shown "s" csr ++ hex value.toNat
  | .clearFloat => "fp"
  | .wait => "wfi"
  | .enter arg0 arg1 => "enter " ++ hex arg0.toNat ++ " " ++ hex arg1.toNat

/-- The two kinds of guarded accesses. -/
inductive ProbeKind where
  | read
  | write
deriving DecidableEq, Repr

/-- Whether an access is a guarded one of the given kind to the given register. -/
def Access.isProbe (access : Access) (kind : ProbeKind) (csr : Csr) : Bool :=
  match kind, access with
  | .read, .probeRead accessed _ => accessed == csr
  | .write, .probeWrite accessed _ _ => accessed == csr
  | _, _ => false

/-- Guarded accesses of one kind to one register that fail once there have been some of them. -/
structure Outage where
  kind : ProbeKind
  csr : Csr
  /-- Number of accesses that are spared. -/
  spared : Nat
deriving DecidableEq, Repr

/-- A hart with its registers and its history. -/
structure Hart where
  csrs : CsrFile := ∅
  /-- Accepted writes with the values as given, oldest first. -/
  writes : Array (Csr × Word) := #[]
  /-- The floating-point registers have been cleared. -/
  floatCleared : Bool := false
  /-- Accesses with effects, oldest first. -/
  trace : Array Access := #[]
  outages : List Outage := []

/-- An action on a hart, which may stop it. -/
abbrev HartM := EStateM Stop Hart

namespace Hart

/-- Whether the hart implements a register. -/
def implements (hart : Hart) (csr : Csr) : Bool := hart.csrs.contains csr

/-- The value of an implemented register. -/
def value? (hart : Hart) (csr : Csr) : Option Word := (hart.csrs[csr]?).map Register.value

/-- Whether a register is implemented and not read-only. -/
def accepts (hart : Hart) (csr : Csr) : Bool := (hart.csrs[csr]?).any (! ·.readOnly)

/-- The values that a register accepted, oldest first. -/
def writesTo (hart : Hart) (csr : Csr) : List Word :=
  (hart.writes.toList.filter (·.1 == csr)).map Prod.snd

/-- Add an access to the history. -/
def note (hart : Hart) (access : Access) : Hart :=
  { hart with trace := hart.trace.push access }

/-- Write to a register that accepts it, giving its previous value. -/
def store? (hart : Hart) (csr : Csr) (written : Word) : Option (Word × Hart) :=
  match hart.csrs[csr]? with
  | some register =>
    if register.readOnly then none
    else some (register.value,
      { hart with
        csrs := hart.csrs.insert csr (register.store written)
        writes := hart.writes.push (csr, written) })
  | none => none

/-- Whether an outage makes the next guarded access fail. -/
def isOut (hart : Hart) (kind : ProbeKind) (csr : Csr) : Bool :=
  hart.outages.any fun outage =>
    outage.kind == kind && outage.csr == csr
      && outage.spared ≤ hart.trace.countP fun access => access.isProbe kind csr

/-- What a guarded read finds, unless it traps. -/
def probeValue? (hart : Hart) (csr : Csr) : Option Word :=
  if hart.isOut .read csr then none else hart.value? csr

/-- What a guarded write leaves behind, with the previous value, unless it traps. -/
def probeStore? (hart : Hart) (csr : Csr) (written : Word) : Option (Word × Hart) :=
  if hart.isOut .write csr then none else hart.store? csr written

/-- Address that a trapping access is reported to come from. -/
def trapAddress : Word := 0x80000400

/-- The trap raised by an access to a register that does not allow it. -/
def trapFor (csr : Csr) : TrapRecord :=
  .illegalInstruction trapAddress (csr.number.setWidth 64)

/-- A write is accepted by an implemented register that is not read-only, which then holds what it
keeps of the written value. Nothing else changes but the log of accepted writes. -/
theorem store?_eq_some_iff {hart stored : Hart} {csr : Csr} {written previous : Word} :
    hart.store? csr written = some (previous, stored) ↔
      ∃ register, hart.csrs[csr]? = some register ∧ register.readOnly = false ∧
        previous = register.value ∧
        stored = { hart with
          csrs := hart.csrs.insert csr (register.store written)
          writes := hart.writes.push (csr, written) } := by
  unfold store?
  cases found : hart.csrs[csr]? with
  | none => simp
  | some register =>
    dsimp only
    split
    next locked => simp [locked]
    next unlocked =>
      simp only [Option.some.injEq, Prod.mk.injEq]
      constructor
      · rintro ⟨rfl, rfl⟩
        exact ⟨register, rfl, by simpa using unlocked, rfl, rfl⟩
      · rintro ⟨other, rfl, -, rfl, rfl⟩
        exact ⟨rfl, rfl⟩

theorem store?_eq_none_iff {hart : Hart} {csr : Csr} {written : Word} :
    hart.store? csr written = none ↔ hart.accepts csr = false := by
  unfold store? accepts
  cases hart.csrs[csr]? with
  | none => simp
  | some register =>
    dsimp only
    split <;> simp_all

end Hart

namespace HartM

/-- The result of a checked computation, or a stop. -/
def checked {α : Type} : Except Overflow α → HartM α
  | .ok result => pure result
  | .error operation => throw (.overflow operation)

/-- Read a register, reporting a trap if it is absent. -/
def probeRead (csr : Csr) : HartM (Except TrapRecord Word) := fun hart =>
  let found := hart.probeValue? csr
  .ok (found.elim (.error (Hart.trapFor csr)) .ok) (hart.note (.probeRead csr found))

/-- Write to a register, reporting a trap if it is absent or read-only. -/
def probeWrite (csr : Csr) (value : Word) : HartM (Except TrapRecord Unit) := fun hart =>
  match hart.probeStore? csr value with
  | some (_, stored) => .ok (.ok ()) (stored.note (.probeWrite csr value true))
  | none => .ok (.error (Hart.trapFor csr)) (hart.note (.probeWrite csr value false))

/-- Read a register that is known to exist. -/
def read (csr : Csr) : HartM Word := fun hart =>
  match hart.value? csr with
  | some value => .ok value hart
  | none => .error (.notImplemented csr) hart

/-- Write to a register that is known to accept it. -/
def write (csr : Csr) (value : Word) : HartM Unit := fun hart =>
  let noted := hart.note (.write csr value)
  match noted.store? csr value with
  | some (_, stored) => .ok () stored
  | none => .error (.illegalWrite csr) noted

/-- Write to a register that is known to accept it, giving its previous value. -/
def swap (csr : Csr) (value : Word) : HartM Word := fun hart =>
  let noted := hart.note (.swap csr value)
  match noted.store? csr value with
  | some (previous, stored) => .ok previous stored
  | none => .error (.illegalSwap csr) noted

/-- Clear the floating-point registers, and their status where it is implemented. -/
def clearFloat : HartM Unit := fun hart =>
  let cleared := { hart.note .clearFloat with floatCleared := true }
  if cleared.implements .fcsr then
    match cleared.store? .fcsr 0 with
    | some (_, stored) => .ok () stored
    | none => .error (.illegalWrite .fcsr) cleared
  else .ok () cleared

/-- Wait for an interrupt. None ever comes, so the hart stops here. -/
def wait : HartM Empty := fun hart => .error .halted (hart.note .wait)

/-- Return from machine mode to the address and mode that have been set up. -/
def enter (arg0 arg1 : Word) : HartM Empty := fun hart =>
  let noted := hart.note (.enter arg0 arg1)
  match hart.value? .mepc with
  | some entry => .error (.entered entry arg0 arg1) noted
  | none => .error (.notImplemented .mepc) noted

/-- Whether the hart advertises an extension. -/
def hasExtension (extension : Char) : HartM Bool := do
  return Misa.has (← read .misa) extension

/-- Number of the executing hart. -/
def hartId : HartM Word := read .mhartid

/-- Park the hart for good. -/
def hang : HartM Empty := wait

end HartM

end HartBoot
