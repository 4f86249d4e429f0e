import HartBoot.Flags
import HartBoot.Trap

/-! # Interrupts and exceptions as flags

The delegation registers hold one bit per interrupt and one bit per exception. Exceptions take the
bit with the number of their cause.
-/

namespace HartBoot

namespace Interrupts

/-- Bits of the interrupt registers. -/
def family : FlagFamily 64 :=
  [("SSIP", 1 <<< 1), ("MSIP", 1 <<< 3), ("STIP", 1 <<< 5), ("MTIP", 1 <<< 7),
    ("SEIP", 1 <<< 9), ("MEIP", 1 <<< 11), ("LCOFIP", 1 <<< 13)]

end Interrupts

/-- A set of interrupts. -/
abbrev Interrupts := FlagSet Interrupts.family

namespace Interrupts

/-- Supervisor software interrupt. -/
def ssip : Interrupts := ⟨1 <<< 1⟩
/-- Supervisor timer interrupt. -/
def stip : Interrupts := ⟨1 <<< 5⟩
/-- Supervisor external interrupt. -/
def seip : Interrupts := ⟨1 <<< 9⟩
/-- Local counter overflow interrupt. -/
def lcofip : Interrupts := ⟨1 <<< 13⟩

end Interrupts

namespace Exceptions

/-- Bits of the exception delegation register. -/
def family : FlagFamily 64 :=
  [("MISALIGNED_FETCH", 1 <<< 0), ("FETCH_ACCESS", 1 <<< 1), ("ILLEGAL_INSTRUCTION", 1 <<< 2),
    ("BREAKPOINT", 1 <<< 3), ("MISALIGNED_LOAD", 1 <<< 4), ("LOAD_ACCESS", 1 <<< 5),
    ("MISALIGNED_STORE", 1 <<< 6), ("STORE_ACCESS", 1 <<< 7), ("USER_ECALL", 1 <<< 8),
    ("SUPERVISOR_ECALL", 1 <<< 9), ("VIRTUAL_SUPERVISOR_ECALL", 1 <<< 10),
    ("MACHINE_ECALL", 1 <<< 11), ("FETCH_PAGE_FAULT", 1 <<< 12), ("LOAD_PAGE_FAULT", 1 <<< 13),
    ("STORE_PAGE_FAULT", 1 <<< 15), ("FETCH_GUEST_PAGE_FAULT", 1 <<< 20),
    ("LOAD_GUEST_PAGE_FAULT", 1 <<< 21), ("VIRTUAL_INST_FAULT", 1 <<< 22),
    ("STORE_GUEST_PAGE_FAULT", 1 <<< 23)]

end Exceptions

/-- A set of exceptions. -/
abbrev Exceptions := FlagSet Exceptions.family

namespace Exceptions

/-- The set holding a single exception. -/
def single (cause : ExceptionCause) : Exceptions := ⟨1 <<< cause.code.toNat⟩

/-- The set of the listed exceptions. -/
def ofList (causes : List ExceptionCause) : Exceptions :=
  causes.foldr (fun cause set => single cause ∪ set) .empty

/-- Every exception has a name, and its flag is the bit numbered by its cause. -/
theorem single_mem_family (cause : ExceptionCause) :
    ∃ name, (name, (single cause).bits) ∈ family := by
  cases cause <;> simp [family, single, ExceptionCause.code]

/-- An exception is in a set where its bit is set. -/
theorem contains_single (exceptions : Exceptions) (cause : ExceptionCause) :
    exceptions.contains (single cause) = exceptions.bits.getLsbD cause.code.toNat :=
  FlagSet.contains_single exceptions cause.toNat_code_lt

/-- The set of a list has the bits of the listed exceptions and no others. -/
theorem getLsbD_ofList (causes : List ExceptionCause) (position : Nat) :
    (ofList causes).bits.getLsbD position = true ↔
      ∃ cause ∈ causes, cause.code.toNat = position := by
  induction causes with
  | nil => simp [ofList, FlagSet.empty]
  | cons cause rest ih =>
    have bit : (single cause).bits.getLsbD position = true ↔ cause.code.toNat = position :=
      FlagSet.getLsbD_one_shiftLeft cause.toNat_code_lt position
    rw [ofList, List.foldr_cons, FlagSet.bits_union, BitVec.getLsbD_or, Bool.or_eq_true, bit]
    simp only [List.mem_cons, exists_eq_or_imp]
    exact or_congr_right ih

theorem contains_ofList {causes : List ExceptionCause} {cause : ExceptionCause} :
    (ofList causes).contains (single cause) = true ↔ cause ∈ causes := by
  rw [contains_single, getLsbD_ofList]
  constructor
  · rintro ⟨other, member, same⟩
    obtain rfl := ExceptionCause.code_inj.mp (BitVec.eq_of_toNat_eq same)
    exact member
  · intro member
    exact ⟨cause, member, rfl⟩

end Exceptions

end HartBoot
