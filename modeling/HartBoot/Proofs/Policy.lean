import HartBoot.Delegation

/-! # What the delegation policy gives away

The policy hands over the interrupts of supervisor mode, those of counter overflows where the record
has them, and a list of exceptions that depends on the hypervisor extension and on the platform. It
hands over all of these and nothing else. Traps may be delegated on grounds: an extension of the
hart, a record that traps were delegated by, or a platform. Whatever has no grounds, and whatever
only machine mode can handle, may not be. What the policy hands over may be delegated on its own
grounds. The less is delegated the better, so a part of what may be delegated may be delegated as
well.
-/

namespace HartBoot

namespace Delegation

/-- Whether an exception is handed over by a hart with or without the hypervisor extension, on a
platform that does or does not ask for page faults. -/
def handsOver (hypervisor pageFaults : Bool) : ExceptionCause → Bool
  | .fetchMisaligned | .breakpoint => true
  | .userCall => !hypervisor
  | .virtualSupervisorCall | .fetchGuestPage | .loadGuestPage | .virtualInstruction
  | .storeGuestPage => hypervisor
  | .fetchPage | .loadPage | .storePage => pageFaults
  | .fetchAccess | .illegalInstruction | .loadMisaligned | .loadAccess | .storeMisaligned
  | .storeAccess | .supervisorCall | .machineCall => false

/-- The exceptions of the policy are those that are handed over, whatever the record is. -/
theorem exceptions_policy (record : FeatureRecord) (hypervisor pageFaults : Bool) :
    (policy record hypervisor pageFaults).exceptions =
      Exceptions.ofList (ExceptionCause.all.filter (handsOver hypervisor pageFaults)) := by
  cases hypervisor <;> cases pageFaults <;> rfl

theorem contains_exceptions_policy (record : FeatureRecord) (hypervisor pageFaults : Bool)
    (cause : ExceptionCause) :
    (policy record hypervisor pageFaults).exceptions.contains (Exceptions.single cause) =
      handsOver hypervisor pageFaults cause := by
  rw [exceptions_policy, Bool.eq_iff_iff, Exceptions.contains_ofList, List.mem_filter]
  exact and_iff_right cause.mem_all

/-- The interrupts of the policy are those of supervisor mode, which are its software, timer and
external interrupts, and that of counter overflows if the record has them. -/
theorem getLsbD_interrupts_policy (record : FeatureRecord) (hypervisor pageFaults : Bool)
    (position : Nat) :
    (policy record hypervisor pageFaults).interrupts.bits.getLsbD position = true ↔
      position ∈ [1, 5, 9] ∨ position = 13 ∧ record.has FeatureFlags.sscofpmf = true := by
  have software : Interrupts.ssip.bits.getLsbD position = true ↔ 1 = position :=
    FlagSet.getLsbD_one_shiftLeft (by decide) position
  have timer : Interrupts.stip.bits.getLsbD position = true ↔ 5 = position :=
    FlagSet.getLsbD_one_shiftLeft (by decide) position
  have external : Interrupts.seip.bits.getLsbD position = true ↔ 9 = position :=
    FlagSet.getLsbD_one_shiftLeft (by decide) position
  have overflow : Interrupts.lcofip.bits.getLsbD position = true ↔ 13 = position :=
    FlagSet.getLsbD_one_shiftLeft (by decide) position
  have supervisor : (Interrupts.ssip ∪ Interrupts.stip ∪ Interrupts.seip).bits.getLsbD position =
      true ↔ position ∈ [1, 5, 9] := by
    simp only [FlagSet.bits_union, BitVec.getLsbD_or, Bool.or_eq_true, software, timer, external,
      List.mem_cons, List.not_mem_nil, or_false]
    omega
  rw [policy]
  dsimp only
  split
  next counted =>
    rw [FlagSet.bits_union, BitVec.getLsbD_or, Bool.or_eq_true, supervisor, overflow,
      and_iff_left counted, eq_comm]
  next uncounted => rw [supervisor, or_iff_left fun both => uncounted both.2]

end Delegation

variable {extensions : Char → Bool} {grounds wider : FeatureRecord → Platform → Prop}

/-- Interrupts that a hart with certain extensions may have delegated on certain grounds. -/
structure Interrupts.Delegable (extensions : Char → Bool)
    (grounds : FeatureRecord → Platform → Prop) (interrupts : Interrupts) : Prop where
  supervisorLevel : (ssip ∪ stip ∪ seip ∪ lcofip).contains interrupts = true
  overflow : interrupts.contains lcofip = true → extensions 'S' = true ∧
    ∃ record platform, grounds record platform ∧ record.has FeatureFlags.sscofpmf = true
  supervised : extensions 'S' = false → interrupts = .empty

namespace Interrupts.Delegable

theorem mono {interrupts : Interrupts} (delegable : interrupts.Delegable extensions grounds)
    (widens : ∀ record platform, grounds record platform → wider record platform) :
    interrupts.Delegable extensions wider where
  supervisorLevel := delegable.supervisorLevel
  overflow held := by
    obtain ⟨supervisor, record, platform, used, counted⟩ := delegable.overflow held
    exact ⟨supervisor, record, platform, widens record platform used, counted⟩
  supervised := delegable.supervised

theorem of_contains {larger smaller : Interrupts} (delegable : larger.Delegable extensions grounds)
    (covers : larger.contains smaller = true) : smaller.Delegable extensions grounds where
  supervisorLevel := FlagSet.contains_trans delegable.supervisorLevel covers
  overflow held := delegable.overflow (FlagSet.contains_trans covers held)
  supervised lacking := by
    rw [delegable.supervised lacking] at covers
    exact FlagSet.eq_empty_of_contains covers

theorem empty : Delegable extensions grounds .empty where
  supervisorLevel := by decide
  overflow held := absurd held (by decide)
  supervised _ := rfl

/-- The policy gives interrupts away on the grounds of the record it goes by. -/
theorem policy {record : FeatureRecord} {platform : Platform} (supervised : extensions 'S' = true)
    (used : grounds record platform) :
    (Delegation.policy record (extensions 'H') platform.delegatesPageFaults).interrupts.Delegable
      extensions grounds := by
  have bits (position : Nat) := Delegation.getLsbD_interrupts_policy record (extensions 'H')
    platform.delegatesPageFaults position
  constructor
  case supervisorLevel =>
    have listed : ∀ position ∈ [1, 5, 9],
        (ssip ∪ stip ∪ seip ∪ lcofip).bits.getLsbD position = true := by decide
    rw [FlagSet.contains_iff]
    intro position set
    rcases (bits position).mp set with supervisor | ⟨rfl, -⟩
    · exact listed position supervisor
    · decide
  case overflow =>
    intro held
    have overflow : Interrupts.lcofip.bits.getLsbD 13 = true := by decide
    have set := (FlagSet.contains_iff _ _).mp held 13 overflow
    rcases (bits 13).mp set with supervisor | ⟨-, counted⟩
    · exact absurd supervisor (by decide)
    · exact ⟨supervised, record, platform, used, counted⟩
  case supervised =>
    intro absent
    rw [supervised] at absent
    cases absent

end Interrupts.Delegable

namespace Exceptions

/-- Exceptions that only machine mode can handle, or that are calls to it. -/
def machineHandled : List ExceptionCause :=
  [.illegalInstruction, .fetchAccess, .loadAccess, .storeAccess, .loadMisaligned, .storeMisaligned,
    .supervisorCall, .machineCall]

/-- Exceptions of guests. -/
def guest : List ExceptionCause :=
  [.virtualSupervisorCall, .fetchGuestPage, .loadGuestPage, .virtualInstruction, .storeGuestPage]

/-- Page faults that are not those of guests. -/
def paging : List ExceptionCause := [.fetchPage, .loadPage, .storePage]

/-- Exceptions that a hart with certain extensions may have delegated on certain grounds. -/
structure Delegable (extensions : Char → Bool) (grounds : FeatureRecord → Platform → Prop)
    (exceptions : Exceptions) : Prop where
  kept : ∀ cause ∈ machineHandled, exceptions.contains (single cause) = false
  calls : exceptions.contains (single .userCall) = false ∨
    exceptions.contains (single .virtualSupervisorCall) = false
  guests : ∀ cause ∈ guest, exceptions.contains (single cause) = true → extensions 'H' = true
  pageFaults : ∀ cause ∈ paging, exceptions.contains (single cause) = true →
    ∃ record platform, grounds record platform ∧ platform.delegatesPageFaults = true
  supervised : extensions 'S' = false → exceptions = .empty

namespace Delegable

theorem mono {exceptions : Exceptions} (delegable : exceptions.Delegable extensions grounds)
    (widens : ∀ record platform, grounds record platform → wider record platform) :
    exceptions.Delegable extensions wider where
  kept := delegable.kept
  calls := delegable.calls
  guests := delegable.guests
  pageFaults cause member held := by
    obtain ⟨record, platform, used, asked⟩ := delegable.pageFaults cause member held
    exact ⟨record, platform, widens record platform used, asked⟩
  supervised := delegable.supervised

theorem of_contains {larger smaller : Exceptions} (delegable : larger.Delegable extensions grounds)
    (covers : larger.contains smaller = true) : smaller.Delegable extensions grounds where
  kept cause member := FlagSet.contains_eq_false covers (delegable.kept cause member)
  calls := delegable.calls.imp (FlagSet.contains_eq_false covers) (FlagSet.contains_eq_false covers)
  guests cause member held := delegable.guests cause member (FlagSet.contains_trans covers held)
  pageFaults cause member held :=
    delegable.pageFaults cause member (FlagSet.contains_trans covers held)
  supervised lacking := by
    rw [delegable.supervised lacking] at covers
    exact FlagSet.eq_empty_of_contains covers

theorem empty : Delegable extensions grounds .empty := by
  have missing (cause : ExceptionCause) : FlagSet.contains .empty (single cause) = false := by
    cases cause <;> decide
  exact
    { kept := fun cause _ => missing cause
      calls := .inl (missing .userCall)
      guests := fun cause _ held => absurd held (by rw [missing]; decide)
      pageFaults := fun cause _ held => absurd held (by rw [missing]; decide)
      supervised := fun _ => rfl }

/-- The policy gives exceptions away on the grounds of the platform it goes by, whatever the record
is. -/
theorem policy {record : FeatureRecord} {platform : Platform} (supervised : extensions 'S' = true)
    (used : grounds record platform) :
    (Delegation.policy record (extensions 'H') platform.delegatesPageFaults).exceptions.Delegable
      extensions grounds := by
  have held (cause : ExceptionCause) := Delegation.contains_exceptions_policy record (extensions 'H')
    platform.delegatesPageFaults cause
  constructor
  case kept =>
    intro cause member
    rw [held]
    simp only [machineHandled, List.mem_cons, List.not_mem_nil, or_false] at member
    rcases member with rfl | rfl | rfl | rfl | rfl | rfl | rfl | rfl <;> rfl
  case calls =>
    rw [held, held]
    cases extensions 'H' with
    | true => exact .inl rfl
    | false => exact .inr rfl
  case guests =>
    intro cause member given
    rw [held] at given
    simp only [guest, List.mem_cons, List.not_mem_nil, or_false] at member
    rcases member with rfl | rfl | rfl | rfl | rfl <;> exact given
  case pageFaults =>
    intro cause member given
    rw [held] at given
    refine ⟨record, platform, used, ?_⟩
    simp only [paging, List.mem_cons, List.not_mem_nil, or_false] at member
    rcases member with rfl | rfl | rfl <;> exact given
  case supervised =>
    intro absent
    rw [supervised] at absent
    cases absent

end Delegable

end Exceptions

end HartBoot
