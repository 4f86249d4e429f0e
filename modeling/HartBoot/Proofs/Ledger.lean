import HartBoot.Hart.Build
import HartBoot.Proofs.Operations

/-! # The log of a hart accounts for its registers

A hart that has just been put together has an empty log. From then on, whatever it is made to do, its
log is the list of the writes that it accepted, in the order of its accesses, and its registers are
those that it was built with, each with the value that its accepted writes leave behind one after the
other. An access that fails is in neither. All of this holds from one access to the next, so it does
not matter which operations the accesses belong to, whether these end, fail or stop the hart, and in
which scratch area and with which shared state each of them is performed.
-/

namespace HartBoot

namespace HartM

variable {α : Type}

/-- Where an action stops, it leaves registers and log as they were. -/
def StopsIdle (action : HartM α) : Prop :=
  ∀ hart stop final, action hart = .error stop final → hart.Logs [] final

theorem stopsIdle_read (csr : Csr) : StopsIdle (read csr) := by
  intro hart stop final stopped
  unfold read at stopped
  split at stopped
  next => cases stopped
  next =>
    cases stopped
    exact .refl hart

theorem stopsIdle_write (csr : Csr) (value : Word) : StopsIdle (write csr value) := by
  intro hart stop final stopped
  rcases write_cases csr value hart with ⟨left, ended, logs⟩ | ⟨left, ended, -⟩
  · cases stopped.symm.trans ended
    exact logs
  · cases stopped.symm.trans ended

theorem stopsIdle_swap (csr : Csr) (value : Word) : StopsIdle (swap csr value) := by
  intro hart stop final stopped
  unfold swap at stopped
  dsimp only at stopped
  split at stopped
  next => cases stopped
  next =>
    cases stopped
    exact .idle rfl rfl rfl

theorem stopsIdle_clearFloat : StopsIdle clearFloat := by
  intro hart stop final stopped
  unfold clearFloat at stopped
  dsimp only at stopped
  split at stopped
  next =>
    split at stopped
    next => cases stopped
    next =>
      cases stopped
      exact .idle rfl rfl rfl
  next => cases stopped

theorem stopsIdle_wait : StopsIdle wait := by
  intro hart stop final stopped
  cases stopped
  exact .idle rfl rfl rfl

theorem stopsIdle_enter (arg0 arg1 : Word) : StopsIdle (enter arg0 arg1) := by
  intro hart stop final stopped
  unfold enter at stopped
  dsimp only at stopped
  split at stopped <;> cases stopped <;> exact .idle rfl rfl rfl

end HartM

namespace AccessRequest

/-- Whether an access raises a trap or stops the hart. -/
def fails (request : AccessRequest) (hart : Hart) : Bool :=
  match request.action hart with
  | .ok (.ok _) _ => false
  | .ok (.error _) _ => true
  | .error _ _ => true

/-- An access that raises no trap is answered, or it stops the hart. -/
private theorem answered_or_idle_of {α : Type} {action : HartM α} (idle : HartM.StopsIdle action)
    {answer : α → HartM (Except TrapRecord (Option Word))}
    (answers : ∀ result hart, ∃ found, answer result hart = .ok (.ok found) hart) (hart : Hart) :
    (∃ found final, (action >>= answer) hart = .ok (.ok found) final) ∨
      hart.Logs [] (HartM.finalHart (action >>= answer) hart) := by
  cases ran : action hart with
  | ok result final =>
    obtain ⟨found, answered⟩ := answers result final
    exact .inl ⟨found, final, (bind_ok ran answer).trans answered⟩
  | error stop final =>
    rw [HartM.finalHart_bind_of_error ran]
    exact .inr (idle hart stop final ran)

/-- An access is answered without a trap, or it leaves registers and log as they were. -/
theorem answered_or_idle (request : AccessRequest) (hart : Hart) :
    (∃ found final, request.action hart = .ok (.ok found) final) ∨
      hart.Logs [] (HartM.finalHart request.action hart) := by
  cases request with
  | probeRead csr => exact .inr (.idle rfl rfl rfl)
  | probeWrite csr value =>
    cases tried : hart.probeStore? csr value with
    | none =>
      have refused : HartM.probeWrite csr value hart =
          .ok (.error (Hart.trapFor csr)) (hart.note (.probeWrite csr value false)) := by
        simp only [HartM.probeWrite, tried]
      rw [action, HartM.finalHart_bind_of_ok refused]
      exact .inr (.idle rfl rfl rfl)
    | some result =>
      have accepted : HartM.probeWrite csr value hart =
          .ok (.ok ()) (result.2.note (.probeWrite csr value true)) := by
        simp only [HartM.probeWrite, tried]
      exact .inl ⟨none, _, bind_ok accepted _⟩
  | read csr => exact answered_or_idle_of (HartM.stopsIdle_read csr) (fun _ _ => ⟨_, rfl⟩) hart
  | write csr value =>
    exact answered_or_idle_of (HartM.stopsIdle_write csr value) (fun _ _ => ⟨_, rfl⟩) hart
  | swap csr value =>
    exact answered_or_idle_of (HartM.stopsIdle_swap csr value) (fun _ _ => ⟨_, rfl⟩) hart
  | clearFloat => exact answered_or_idle_of HartM.stopsIdle_clearFloat (fun _ _ => ⟨_, rfl⟩) hart
  | wait => exact answered_or_idle_of HartM.stopsIdle_wait (fun never _ => never.elim) hart
  | enter arg0 arg1 =>
    exact answered_or_idle_of (HartM.stopsIdle_enter arg0 arg1) (fun never _ => never.elim) hart

/-- An access that fails leaves registers and log as they were. -/
theorem unchanged_of_fails {request : AccessRequest} {hart : Hart}
    (failed : request.fails hart = true) :
    (HartM.finalHart request.action hart).csrs = hart.csrs ∧
      (HartM.finalHart request.action hart).writes = hart.writes := by
  rcases request.answered_or_idle hart with ⟨found, final, answered⟩ | idle
  · rw [fails, answered] at failed
    cases failed
  · exact ⟨idle.csrs, Array.toList_inj.mp (idle.writes.trans (List.append_nil _))⟩

end AccessRequest

/-- An operation with the scratch area and the shared state in which it is performed. -/
structure HartOccasion where
  area : Area
  shared : Shared
  operation : HartOperation

namespace Hart

/-- The hart after an operation. -/
def operate (hart : Hart) (occasion : HartOccasion) : Hart :=
  (occasion.operation.leaves ⟨hart, occasion.area, occasion.shared⟩).hart

/-- The hart after operations in turn, each of them on what the ones before have left. -/
def operateAll (hart : Hart) (occasions : List HartOccasion) : Hart := occasions.foldl operate hart

theorem operateAll_append (hart : Hart) (earlier later : List HartOccasion) :
    hart.operateAll (earlier ++ later) = (hart.operateAll earlier).operateAll later :=
  List.foldl_append

theorem reaches_operate (hart : Hart) (occasion : HartOccasion) :
    hart.Reaches (fun _ => True) (hart.operate occasion) :=
  (occasion.operation.descends_leaves ⟨hart, occasion.area, occasion.shared⟩).reaches

theorem reaches_operateAll (hart : Hart) (occasions : List HartOccasion) :
    hart.Reaches (fun _ => True) (hart.operateAll occasions) := by
  induction occasions generalizing hart with
  | nil => exact .refl _ hart
  | cons occasion rest ih => exact (reaches_operate hart occasion).trans (ih (hart.operate occasion))

/-- The log of a run goes on from the log of its beginning. -/
theorem writes_operateAll_prefix (hart : Hart) {earlier occasions : List HartOccasion}
    (begins : earlier <+: occasions) :
    (hart.operateAll earlier).writes.toList <+: (hart.operateAll occasions).writes.toList := by
  obtain ⟨later, rfl⟩ := begins
  rw [operateAll_append]
  obtain ⟨accesses, undergone⟩ := reaches_operateAll (hart.operateAll earlier) later
  exact ⟨_, undergone.logs.writes.symm⟩

/-- A hart that is put together from extensions and registers, and may be set up for drills. -/
inductive Constructed : Hart → Prop where
  | ofExtensions {hart : Hart} (extensions : List Char) (built : ofExtensions extensions = .ok hart) :
    Constructed hart
  | implement {hart : Hart} (constructed : Constructed hart) (csr : Csr) (value writable : Word) :
    Constructed (hart.implement csr value writable)
  | implementReadOnly {hart : Hart} (constructed : Constructed hart) (csr : Csr) (value : Word) :
    Constructed (hart.implementReadOnly csr value)
  | remove {hart : Hart} (constructed : Constructed hart) (csr : Csr) : Constructed (hart.remove csr)
  | implementPmp {hart equipped : Hart} (constructed : Constructed hart) (count : Nat)
    (addressBits : Word) (built : hart.implementPmp count addressBits = .ok equipped) :
    Constructed equipped
  | implementCounters {hart equipped : Hart} (constructed : Constructed hart) (count width : Nat)
    (built : hart.implementCounters count width = .ok equipped) : Constructed equipped
  | drill {hart : Hart} (constructed : Constructed hart) (outages : List Outage) :
    Constructed { hart with outages }

/-- Nothing has happened to a hart yet. -/
structure Fresh (hart : Hart) : Prop where
  writes : hart.writes = #[]
  trace : hart.trace = #[]

theorem Fresh.foldl_implement {α : Type} {hart : Hart} (fresh : hart.Fresh) (items : List α)
    (csr : α → Csr) (value writable : α → Word) :
    (items.foldl (fun hart item => hart.implement (csr item) (value item) (writable item))
      hart).Fresh := by
  induction items generalizing hart with
  | nil => exact fresh
  | cons item rest ih => exact ih ⟨fresh.writes, fresh.trace⟩

/-- What is built in two parts is built from what the first part gives. -/
private theorem of_built {ε α : Type} {first : Except ε α} {next : α → Except ε Hart} {hart : Hart}
    (built : first >>= next = .ok hart) : ∃ part, next part = .ok hart := by
  cases first with
  | ok part => exact ⟨part, built⟩
  | error error => cases built

theorem Constructed.fresh {hart : Hart} (constructed : hart.Constructed) : hart.Fresh := by
  induction constructed with
  | ofExtensions extensions built =>
    obtain ⟨misa, built⟩ := of_built built
    cases built
    exact .foldl_implement ⟨rfl, rfl⟩ _ _ _ _
  | implement _ csr value writable fresh => exact ⟨fresh.writes, fresh.trace⟩
  | implementReadOnly _ csr value fresh => exact ⟨fresh.writes, fresh.trace⟩
  | remove _ csr fresh => exact ⟨fresh.writes, fresh.trace⟩
  | implementPmp _ count addressBits built fresh =>
    obtain ⟨addresses, built⟩ := of_built built
    cases built
    exact (fresh.foldl_implement addresses _ _ _).foldl_implement _ _ _ _
  | implementCounters _ count width built fresh =>
    obtain ⟨past, built⟩ := of_built built
    obtain ⟨counters, built⟩ := of_built built
    cases built
    exact fresh.foldl_implement counters _ _ _
  | drill _ outages fresh => exact ⟨fresh.writes, fresh.trace⟩

/-- One hart is what another has become, and its log accounts for all that has changed. -/
structure Accounts (start final : Hart) : Prop where
  /-- The same registers are implemented, with the same writable bits and locks, and each of them
  holds what its accepted writes leave behind one after the other. -/
  registers : ∀ csr : Csr, final.csrs[csr]? = (start.csrs[csr]?).map fun register => { register with
    value := (final.writesTo csr).foldl
      (fun old written => (old &&& ~~~register.writable) ||| (written &&& register.writable))
      register.value }
  /-- Hardwired bits stay as they are. -/
  hardwired : ∀ (csr : Csr) (before after : Register), start.csrs[csr]? = some before →
    final.csrs[csr]? = some after → after.hardwired = before.hardwired
  /-- Registers that refuse writes stay as they are, and are not in the log. -/
  refusing : ∀ csr : Csr, start.accepts csr = false →
    final.csrs[csr]? = start.csrs[csr]? ∧ final.writesTo csr = []
  /-- The log tells the writes that were accepted among all accesses, in their order. -/
  log : final.writes.toList = final.trace.toList.filterMap (Access.accepted? start.csrs)

theorem Fresh.accounts {start final : Hart} (fresh : start.Fresh)
    (reaches : start.Reaches (fun _ => True) final) : start.Accounts final := by
  have evolves := reaches.evolves
  obtain ⟨accesses, history, ⟨writes, csrs, -⟩, allowed⟩ := reaches
  rw [fresh.trace, List.nil_append] at history
  rw [fresh.writes, List.nil_append] at writes
  rw [← writes] at csrs allowed
  have unlogged (csr : Csr) (refuses : start.accepts csr = false) : final.writesTo csr = [] := by
    rw [writesTo, List.map_eq_nil_iff, List.filter_eq_nil_iff]
    intro entry member same
    have accepts := (allowed entry member).2
    rw [beq_iff_eq.mp same] at accepts
    exact Bool.false_ne_true (refuses.symm.trans accepts)
  constructor
  · intro csr
    rw [csrs, CsrFile.getElem?_writeAll]
    cases found : start.csrs[csr]? with
    | none => rfl
    | some register =>
      by_cases locked : register.readOnly = true
      · have refuses : start.accepts csr = false := by simp [accepts, found, locked]
        rw [Option.map_some, Option.map_some, if_pos locked, unlogged csr refuses]
        rfl
      · rw [Option.map_some, Option.map_some, if_neg locked, Register.foldl_store]
        rfl
  · intro csr before after found left
    obtain ⟨other, stored, rewrites⟩ := evolves.of_some found
    obtain rfl := Option.some.inj (left.symm.trans stored)
    exact rewrites.hardwired_eq
  · intro csr refuses
    exact ⟨evolves.of_refused refuses, unlogged csr refuses⟩
  · rw [writes, history]

/-- Whatever a hart is made to do after it has been put together, its log accounts for all that has
changed. A further access that fails leaves registers and log as they are, and the log of a run
only grows at its end. -/
theorem operateAll_accounts {hart : Hart} (constructed : hart.Constructed)
    (occasions : List HartOccasion) :
    hart.Accounts (hart.operateAll occasions) ∧
      (∀ request : AccessRequest, request.fails (hart.operateAll occasions) = true →
        (HartM.finalHart request.action (hart.operateAll occasions)).csrs =
            (hart.operateAll occasions).csrs ∧
          (HartM.finalHart request.action (hart.operateAll occasions)).writes =
            (hart.operateAll occasions).writes) ∧
      ∀ earlier, earlier <+: occasions →
        (hart.operateAll earlier).writes.toList <+: (hart.operateAll occasions).writes.toList := by
  refine ⟨constructed.fresh.accounts (hart.reaches_operateAll occasions), ?_, ?_⟩
  · exact fun request failed => AccessRequest.unchanged_of_fails failed
  · exact fun earlier begins => hart.writes_operateAll_prefix begins

/-- A hart with supervisor mode and a floating-point unit, a clock that refuses writes, and a
register with two writable bits and one that is hardwired. -/
def clocked : Hart :=
  (((ofExtensions ['S', 'F']).toOption.getD {}).implement .mcounteren 0b10 0b101).implementReadOnly
    .time 1234

theorem constructed_clocked : clocked.Constructed := by
  have representable : (ofExtensions ['S', 'F']).isOk = true := by decide +kernel
  cases built : ofExtensions ['S', 'F'] with
  | error operation =>
    rw [built] at representable
    cases representable
  | ok hart =>
    rw [clocked, built]
    exact ((Constructed.ofExtensions _ built).implement .mcounteren 0b10 0b101).implementReadOnly
      .time 1234

/-- A run with accesses that are answered, trap and stop the hart, and with calls. -/
def clockedRun : List HartOccasion :=
  let operations : List HartOperation := [.access (.swap .mcounteren Word.ones),
    .access (.probeWrite .time 1), .access (.write .time 2), .access .clearFloat,
    .call (.boot .detect), .call (.boot (.switchMode ⟨0x80200001, 1, false⟩ 1 2)),
    .access (.probeWrite .mcounteren 1)]
  operations.map fun operation => ⟨.blank, {}, operation⟩

/-- The log of a run has what was exchanged, what detection wrote back, and what was written last,
but nothing of the attempts to set the clock. -/
theorem operateAll_accounts_clocked :
    clocked.Constructed ∧ clocked.Accounts (clocked.operateAll clockedRun) ∧
      (clocked.operateAll clockedRun).writesTo .mcounteren = [Word.ones, 0b111, 1] ∧
      (clocked.operateAll clockedRun).value? .mcounteren = some 0b11 ∧
      AccessRequest.fails (.write .time 3) (clocked.operateAll clockedRun) = true ∧
      (HartM.finalHart (AccessRequest.write .time 3).action (clocked.operateAll clockedRun)).writes =
        (clocked.operateAll clockedRun).writes := by
  obtain ⟨accounts, failing, -⟩ := operateAll_accounts constructed_clocked clockedRun
  have stopped : AccessRequest.fails (.write .time 3) (clocked.operateAll clockedRun) = true := by
    decide +kernel
  refine ⟨constructed_clocked, accounts, ?_, ?_, stopped, (failing _ stopped).2⟩
  · decide +kernel
  · decide +kernel

end Hart

end HartBoot
