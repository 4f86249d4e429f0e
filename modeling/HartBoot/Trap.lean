import HartBoot.Word

/-! # Traps

A trap record holds the registers that the hardware fills in when it takes a trap. Its highest
cause bit tells interrupts from exceptions, and a cause of zero stands for no trap at all, since
no register access can raise the exception with that number.
-/

namespace HartBoot

/-- The exceptions of a hart. -/
inductive ExceptionCause where
  | fetchMisaligned
  | fetchAccess
  | illegalInstruction
  | breakpoint
  | loadMisaligned
  | loadAccess
  | storeMisaligned
  | storeAccess
  | userCall
  | supervisorCall
  | virtualSupervisorCall
  | machineCall
  | fetchPage
  | loadPage
  | storePage
  | fetchGuestPage
  | loadGuestPage
  | virtualInstruction
  | storeGuestPage
deriving DecidableEq, Repr

namespace ExceptionCause

/-- Number of an exception in the cause register. -/
def code : ExceptionCause → Word
  | .fetchMisaligned => 0
  | .fetchAccess => 1
  | .illegalInstruction => 2
  | .breakpoint => 3
  | .loadMisaligned => 4
  | .loadAccess => 5
  | .storeMisaligned => 6
  | .storeAccess => 7
  | .userCall => 8
  | .supervisorCall => 9
  | .virtualSupervisorCall => 10
  | .machineCall => 11
  | .fetchPage => 12
  | .loadPage => 13
  | .storePage => 15
  | .fetchGuestPage => 20
  | .loadGuestPage => 21
  | .virtualInstruction => 22
  | .storeGuestPage => 23

/-- Every exception, in the order of their numbers. -/
def all : List ExceptionCause :=
  [.fetchMisaligned, .fetchAccess, .illegalInstruction, .breakpoint, .loadMisaligned, .loadAccess,
    .storeMisaligned, .storeAccess, .userCall, .supervisorCall, .virtualSupervisorCall,
    .machineCall, .fetchPage, .loadPage, .storePage, .fetchGuestPage, .loadGuestPage,
    .virtualInstruction, .storeGuestPage]

/-- The exception with the given number. -/
def ofCode? (code : Word) : Option ExceptionCause := all.find? (·.code == code)

/-- A number stands for an exception exactly when it is the number of that exception. -/
theorem ofCode?_eq_some_iff (number : Word) (cause : ExceptionCause) :
    ofCode? number = some cause ↔ number = cause.code := by
  constructor
  · intro found
    have matched := List.find?_some found
    exact (beq_iff_eq.mp matched).symm
  · rintro rfl
    cases cause <;> rfl

/-- Distinct exceptions have distinct numbers. -/
theorem code_inj {left right : ExceptionCause} : left.code = right.code ↔ left = right := by
  rw [← ofCode?_eq_some_iff, (ofCode?_eq_some_iff _ left).mpr rfl, Option.some.injEq]

theorem toNat_code_lt (cause : ExceptionCause) : cause.code.toNat < 64 := by
  cases cause <;> decide

theorem mem_all (cause : ExceptionCause) : cause ∈ all := by
  cases cause <;> decide

end ExceptionCause

/-- The registers recorded when a trap is taken. -/
structure TrapRecord where
  /-- Address of the trapping instruction. -/
  epc : Word := 0
  cause : Word := 0
  tval : Word := 0
  tval2 : Word := 0
  tinst : Word := 0
deriving DecidableEq, Repr, Inhabited

namespace TrapRecord

/-- The cause bit that interrupts have and exceptions do not. -/
def interruptFlag : Word := 1 <<< 63

/-- The record of an illegal instruction. -/
def illegalInstruction (epc tval : Word) : TrapRecord :=
  { epc, cause := ExceptionCause.illegalInstruction.code, tval }

/-- Whether the record holds a trap. -/
def trapped (trap : TrapRecord) : Bool := trap.cause != 0

/-- Whether the trap was an interrupt. -/
def isInterrupt (trap : TrapRecord) : Bool := trap.cause &&& interruptFlag != 0

/-- The exception that was taken, unless the trap was an interrupt or an unknown exception. -/
def exception? (trap : TrapRecord) : Option ExceptionCause :=
  if trap.isInterrupt then none else ExceptionCause.ofCode? trap.cause

end TrapRecord

end HartBoot
