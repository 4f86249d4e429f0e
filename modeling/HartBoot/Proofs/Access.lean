import HartBoot.Proofs.RegisterFile

/-! # Accesses as transitions of the register file

What an action does to a hart is told in two ways. `HartM.Gives` says how it ends from given
registers: with which result, and with which registers left behind. `HartM.Writes` bounds what it
may have changed, whether it ends or stops: registers change by the writes that the hart accepts,
and its log tells these and no others, in the order in which its history tells all accesses. Both
compose along the steps of an action, and the lemmas here give them for each kind of access. Outages
only matter for guarded accesses, and no action changes them.
-/

namespace HartBoot

/-- The write that an access makes to registers, unless they refuse it. -/
def Access.accepted? (file : CsrFile) : Access → Option (Csr × Word)
  | .probeWrite csr value accepted => if accepted then some (csr, value) else none
  | .write csr value | .swap csr value => if file.accepts csr then some (csr, value) else none
  | .clearFloat => if file.accepts .fcsr then some (.fcsr, 0) else none
  | .probeRead .. | .wait | .enter .. => none

/-- It only matters which registers accept writes. -/
theorem Access.accepted?_congr {file other : CsrFile}
    (same : ∀ csr, other.accepts csr = file.accepts csr) :
    Access.accepted? other = Access.accepted? file := by
  funext access
  cases access <;> simp only [accepted?, same]

variable {σ α β : Type}

/-- An action that ends hands its result and its state to what follows. -/
theorem bind_ok {action : EStateM Stop σ α} {start final : σ} {result : α}
    (ran : action start = .ok result final) (next : α → EStateM Stop σ β) :
    (action >>= next) start = next result final := by
  simp only [Bind.bind, EStateM.bind, ran]

/-- An action of two parts ends exactly where both parts do. -/
theorem bind_eq_ok_iff {action : EStateM Stop σ α} {next : α → EStateM Stop σ β} {start final : σ}
    {outcome : β} :
    (action >>= next) start = .ok outcome final ↔
      ∃ result middle, action start = .ok result middle ∧ next result middle = .ok outcome final := by
  constructor
  · intro ran
    simp only [Bind.bind, EStateM.bind] at ran
    split at ran
    next result middle first => exact ⟨result, middle, first, ran⟩
    next => cases ran
  · rintro ⟨result, middle, first, second⟩
    exact (bind_ok first next).trans second

namespace HartM

variable {outages : List Outage} {before middle after : CsrFile}

/-- From every hart with the given outages and registers, an action ends with the given result and
leaves the given registers behind. -/
def Gives (outages : List Outage) (action : HartM α) (before : CsrFile) (result : α)
    (after : CsrFile) : Prop :=
  ∀ hart : Hart, hart.csrs = before → hart.outages = outages →
    ∃ final, action hart = .ok result final ∧ final.csrs = after ∧ final.outages = outages

namespace Gives

theorem pure (result : α) (file : CsrFile) :
    Gives outages (Pure.pure result) file result file := by
  rintro hart rfl rfl
  exact ⟨hart, rfl, rfl, rfl⟩

theorem congr {action : HartM α} {result answer : α}
    (ended : Gives outages action before result after) (same : result = answer) :
    Gives outages action before answer after := same ▸ ended

/-- Actions compose through the registers between them. -/
theorem bind {action : HartM α} {next : α → HartM β} {result : α} {outcome : β}
    (first : Gives outages action before result middle)
    (second : Gives outages (next result) middle outcome after) :
    Gives outages (action >>= next) before outcome after := by
  intro hart registers same
  obtain ⟨paused, ran, registers, same⟩ := first hart registers same
  obtain ⟨final, continued, registers, same⟩ := second paused registers same
  exact ⟨final, (bind_ok ran next).trans continued, registers, same⟩

theorem map {action : HartM α} {result : α} (convert : α → β)
    (first : Gives outages action before result after) :
    Gives outages (do return convert (← action)) before (convert result) after :=
  first.bind (pure _ _)

end Gives

theorem gives_checked {computed : Except Overflow α} {result : α} (fits : computed = .ok result)
    (file : CsrFile) : Gives outages (checked computed) file result file := by
  subst fits
  exact .pure result file

theorem gives_read {file : CsrFile} {csr : Csr} {value : Word} (found : file.value? csr = some value) :
    Gives outages (read csr) file value file := by
  rintro hart rfl rfl
  have present : hart.value? csr = some value := found
  exact ⟨hart, by simp only [read, present], rfl, rfl⟩

/-- An accepted write, as a transition of the hart. -/
private theorem store?_write {hart : Hart} {csr : Csr} {register : Register}
    (found : hart.csrs[csr]? = some register) (unlocked : register.readOnly = false)
    (written : Word) : ∃ stored, hart.store? csr written = some (register.value, stored) ∧
      stored.csrs = hart.csrs.write csr written ∧ stored.outages = hart.outages := by
  refine ⟨_, Hart.store?_eq_some_iff.mpr ⟨register, found, unlocked, rfl, rfl⟩, ?_, rfl⟩
  exact (CsrFile.write_of_accepts found unlocked written).symm

theorem gives_swap {file : CsrFile} {csr : Csr} {register : Register}
    (found : file[csr]? = some register) (unlocked : register.readOnly = false) (written : Word) :
    Gives outages (swap csr written) file register.value (file.write csr written) := by
  rintro hart rfl rfl
  obtain ⟨stored, accepted, registers, same⟩ :=
    @store?_write (hart.note (.swap csr written)) csr register found unlocked written
  refine ⟨stored, ?_, registers, same⟩
  simp only [swap, accepted]

theorem gives_write {file : CsrFile} {csr : Csr} (accepts : file.accepts csr = true)
    (written : Word) : Gives outages (write csr written) file () (file.write csr written) := by
  rintro hart rfl rfl
  obtain ⟨register, found, unlocked⟩ := CsrFile.accepts_iff.mp accepts
  obtain ⟨stored, accepted, registers, same⟩ :=
    @store?_write (hart.note (.write csr written)) csr register found unlocked written
  refine ⟨stored, ?_, registers, same⟩
  simp only [write, accepted]

/-- What a guarded read reports. -/
def readReport (file : CsrFile) (csr : Csr) : Except TrapRecord Word :=
  (file.value? csr).elim (.error (Hart.trapFor csr)) .ok

/-- What a guarded write reports. -/
def writeReport (file : CsrFile) (csr : Csr) : Except TrapRecord Unit :=
  if file.accepts csr then .ok () else .error (Hart.trapFor csr)

private theorem isOut_of_steady {hart : Hart} (steady : hart.outages = []) (kind : ProbeKind)
    (csr : Csr) : hart.isOut kind csr = false := by
  simp [Hart.isOut, steady]

/-- A guarded read never stops the hart. -/
theorem gives_probeRead (file : CsrFile) (csr : Csr) :
    Gives [] (probeRead csr) file (readReport file csr) file := by
  rintro hart rfl steady
  refine ⟨hart.note (.probeRead csr (hart.value? csr)), ?_, rfl, steady⟩
  have reaches : hart.probeValue? csr = hart.value? csr := by
    simp [Hart.probeValue?, isOut_of_steady steady]
  simp only [probeRead, reaches]
  rfl

/-- A guarded write never stops the hart, and changes it only when the register accepts it. -/
theorem gives_probeWrite (file : CsrFile) (csr : Csr) (written : Word) :
    Gives [] (probeWrite csr written) file (writeReport file csr) (file.write csr written) := by
  rintro hart rfl steady
  have reaches : hart.probeStore? csr written = hart.store? csr written := by
    simp [Hart.probeStore?, isOut_of_steady steady]
  cases accepts : hart.csrs.accepts csr with
  | true =>
    obtain ⟨register, found, unlocked⟩ := CsrFile.accepts_iff.mp accepts
    obtain ⟨stored, accepted, registers, same⟩ := store?_write found unlocked written
    refine ⟨stored.note (.probeWrite csr written true), ?_, registers, same.trans steady⟩
    simp only [probeWrite, reaches, accepted, writeReport, accepts, if_true]
  | false =>
    have refused : hart.store? csr written = none := Hart.store?_eq_none_iff.mpr accepts
    refine ⟨hart.note (.probeWrite csr written false), ?_, ?_, steady⟩
    · simp only [probeWrite, reaches, refused, writeReport, accepts, Bool.false_eq_true, if_false]
    · exact (CsrFile.write_of_refused accepts written).symm

/-- What a hart has become when an action on it ended or stopped. -/
def finalHart (action : HartM α) (hart : Hart) : Hart :=
  match action hart with
  | .ok _ final => final
  | .error _ final => final

/-- Once its beginning has ended, an action goes on from what the beginning left. -/
theorem finalHart_bind_of_ok {action : HartM α} {hart paused : Hart} {result : α}
    (ran : action hart = .ok result paused) (next : α → HartM β) :
    finalHart (action >>= next) hart = finalHart (next result) paused := by
  rw [finalHart, bind_ok ran, finalHart]

/-- An action that stops does not go on. -/
theorem finalHart_bind_of_error {action : HartM α} {hart final : Hart} {stop : Stop}
    (stopped : action hart = .error stop final) (next : α → HartM β) :
    finalHart (action >>= next) hart = final := by
  simp only [finalHart, Bind.bind, EStateM.bind, stopped]

end HartM

namespace Hart

variable {touched wider : Csr → Prop} {first second third before after : Hart}

/-- One hart has become another by the given writes, which it accepted and added to its log. -/
structure Logs (before : Hart) (accepted : List (Csr × Word)) (after : Hart) : Prop where
  writes : after.writes.toList = before.writes.toList ++ accepted
  csrs : after.csrs = before.csrs.writeAll accepted
  outages : after.outages = before.outages

theorem Logs.refl (hart : Hart) : hart.Logs [] hart := ⟨(List.append_nil _).symm, rfl, rfl⟩

theorem Logs.trans {early late : List (Csr × Word)} (start : first.Logs early second)
    (rest : second.Logs late third) : first.Logs (early ++ late) third where
  writes := by rw [rest.writes, start.writes, List.append_assoc]
  csrs := by rw [rest.csrs, start.csrs, CsrFile.writeAll_append]
  outages := rest.outages.trans start.outages

/-- What happens apart from accepted writes makes no difference. -/
theorem Logs.idle (writes : after.writes = before.writes) (csrs : after.csrs = before.csrs)
    (outages : after.outages = before.outages) : before.Logs [] after :=
  ⟨by rw [writes, List.append_nil], csrs, outages⟩

/-- A stored value is an accepted write. -/
theorem Logs.of_store? {stored : Hart} {csr : Csr} {written previous : Word}
    (accepted : before.store? csr written = some (previous, stored)) :
    before.Logs [(csr, written)] stored := by
  obtain ⟨register, found, unlocked, -, rfl⟩ := store?_eq_some_iff.mp accepted
  exact ⟨Array.toList_push, (CsrFile.write_of_accepts found unlocked written).symm, rfl⟩

/-- One hart is another one with an access in its history, and nothing was written yet. -/
structure Notes (before : Hart) (access : Access) (after : Hart) : Prop where
  trace : after.trace = before.trace.push access
  writes : after.writes = before.writes
  csrs : after.csrs = before.csrs
  outages : after.outages = before.outages

theorem Notes.note (hart : Hart) (access : Access) : hart.Notes access (hart.note access) :=
  ⟨rfl, rfl, rfl, rfl⟩

/-- An access may be added to the history before a write or after it. -/
theorem store?_note {hart stored : Hart} {csr : Csr} {written previous : Word}
    (accepted : hart.store? csr written = some (previous, stored)) (access : Access) :
    (hart.note access).store? csr written = some (previous, stored.note access) := by
  obtain ⟨register, found, unlocked, rfl, rfl⟩ := store?_eq_some_iff.mp accepted
  exact store?_eq_some_iff.mpr ⟨register, found, unlocked, rfl, rfl⟩

/-- One hart has become another by the given accesses, which its history tells. It accepted some of
them as writes, to registers of a set that do accept writes, and these are in its log. -/
structure Undergoes (touched : Csr → Prop) (before : Hart) (accesses : List Access)
    (after : Hart) : Prop where
  history : after.trace.toList = before.trace.toList ++ accesses
  logs : before.Logs (accesses.filterMap (Access.accepted? before.csrs)) after
  allowed : ∀ entry ∈ accesses.filterMap (Access.accepted? before.csrs),
    touched entry.1 ∧ before.csrs.accepts entry.1 = true

namespace Undergoes

theorem refl (touched : Csr → Prop) (hart : Hart) : hart.Undergoes touched [] hart where
  history := (List.append_nil _).symm
  logs := .refl hart
  allowed := nofun

theorem evolves {accesses : List Access} (undergone : before.Undergoes touched accesses after) :
    CsrFile.Evolves touched before.csrs after.csrs := by
  rw [undergone.logs.csrs]
  exact .writeAll (fun entry member => (undergone.allowed entry member).1) before.csrs

theorem trans {early late : List Access} (start : first.Undergoes touched early second)
    (rest : second.Undergoes touched late third) :
    first.Undergoes touched (early ++ late) third := by
  obtain ⟨told, resumed, permitted⟩ := rest
  have kept : Access.accepted? second.csrs = Access.accepted? first.csrs :=
    Access.accepted?_congr start.evolves.accepts_eq
  rw [kept] at resumed permitted
  constructor
  · rw [told, start.history, List.append_assoc]
  · rw [List.filterMap_append]
    exact start.logs.trans resumed
  · intro entry member
    rw [List.filterMap_append] at member
    rcases List.mem_append.mp member with sooner | later
    · exact start.allowed entry sooner
    · exact ⟨(permitted entry later).1,
        (start.evolves.accepts_eq entry.1).symm.trans (permitted entry later).2⟩

theorem mono {accesses : List Access} (undergone : before.Undergoes touched accesses after)
    (widens : ∀ csr, touched csr → wider csr) : before.Undergoes wider accesses after where
  history := undergone.history
  logs := undergone.logs
  allowed entry member :=
    ⟨widens entry.1 (undergone.allowed entry member).1, (undergone.allowed entry member).2⟩

end Undergoes

/-- One hart has become another by accesses that write to registers of a set at most. -/
def Reaches (touched : Csr → Prop) (before after : Hart) : Prop :=
  ∃ accesses, before.Undergoes touched accesses after

namespace Reaches

theorem refl (touched : Csr → Prop) (hart : Hart) : hart.Reaches touched hart :=
  ⟨[], .refl touched hart⟩

theorem trans (start : first.Reaches touched second) (rest : second.Reaches touched third) :
    first.Reaches touched third := by
  obtain ⟨early, undergone⟩ := start
  obtain ⟨late, resumed⟩ := rest
  exact ⟨early ++ late, undergone.trans resumed⟩

theorem mono (reaches : before.Reaches touched after)
    (widens : ∀ csr, touched csr → wider csr) : before.Reaches wider after := by
  obtain ⟨accesses, undergone⟩ := reaches
  exact ⟨accesses, undergone.mono widens⟩

theorem evolves (reaches : before.Reaches touched after) :
    CsrFile.Evolves touched before.csrs after.csrs := by
  obtain ⟨accesses, undergone⟩ := reaches
  exact undergone.evolves

theorem outages_eq (reaches : before.Reaches touched after) : after.outages = before.outages := by
  obtain ⟨accesses, undergone⟩ := reaches
  exact undergone.logs.outages

/-- An access that is no accepted write leaves its trace in the history alone. -/
theorem of_notes {access : Access} (noted : before.Notes access after)
    (idle : access.accepted? before.csrs = none) : before.Reaches touched after := by
  have nothing : [access].filterMap (Access.accepted? before.csrs) = [] := by
    rw [List.filterMap_cons_none idle, List.filterMap_nil]
  refine ⟨[access], ?_, ?_, ?_⟩
  · rw [noted.trace, Array.toList_push]
  · rw [nothing]
    exact .idle noted.writes noted.csrs noted.outages
  · rw [nothing]
    exact nofun

/-- An accepted write is told by the history and by the log. -/
theorem of_store? {noted stored : Hart} {access : Access} {csr : Csr} {written previous : Word}
    (hit : touched csr) (noting : before.Notes access noted)
    (tells : access.accepted? before.csrs = some (csr, written))
    (accepted : noted.store? csr written = some (previous, stored)) :
    before.Reaches touched stored := by
  have only : [access].filterMap (Access.accepted? before.csrs) = [(csr, written)] := by
    rw [List.filterMap_cons_some tells, List.filterMap_nil]
  have start : before.Logs [] noted := .idle noting.writes noting.csrs noting.outages
  have logged : noted.Logs [(csr, written)] stored := .of_store? accepted
  obtain ⟨register, found, unlocked, -, rfl⟩ := store?_eq_some_iff.mp accepted
  refine ⟨[access], ?_, ?_, ?_⟩
  · rw [noting.trace, Array.toList_push]
  · rw [only]
    exact start.trans logged
  · rw [only]
    intro entry member
    rw [List.mem_singleton.mp member]
    rw [noting.csrs] at found
    exact ⟨hit, CsrFile.accepts_iff.mpr ⟨register, found, unlocked⟩⟩

/-- A write is accepted and told by the log, or it is refused and left out. -/
theorem store {noted : Hart} {access : Access} {csr : Csr} {written : Word} (hit : touched csr)
    (noting : before.Notes access noted)
    (tells : access.accepted? before.csrs =
      if before.csrs.accepts csr then some (csr, written) else none) :
    before.Reaches touched (((noted.store? csr written).map Prod.snd).getD noted) := by
  cases tried : noted.store? csr written with
  | none =>
    have refused : noted.csrs.accepts csr = false := store?_eq_none_iff.mp tried
    rw [noting.csrs] at refused
    rw [refused, if_neg Bool.false_ne_true] at tells
    exact .of_notes noting tells
  | some result =>
    obtain ⟨previous, stored⟩ := result
    obtain ⟨register, found, unlocked, -, -⟩ := store?_eq_some_iff.mp tried
    rw [noting.csrs] at found
    rw [CsrFile.accepts_iff.mpr ⟨register, found, unlocked⟩, if_pos rfl] at tells
    exact .of_store? hit noting tells tried

end Reaches

end Hart

namespace HartM

variable {touched : Csr → Prop}

/-- An action writes to registers of a set at most, and logs what it has written, whether it ends or
stops. -/
def Writes (touched : Csr → Prop) (action : HartM α) : Prop :=
  ∀ hart : Hart, hart.Reaches touched (finalHart action hart)

/-- A write is refused and stops the hart, or it is accepted. -/
theorem write_cases (csr : Csr) (written : Word) (hart : Hart) :
    (∃ final, write csr written hart = .error (.illegalWrite csr) final ∧ hart.Logs [] final) ∨
      ∃ final, write csr written hart = .ok () final ∧ hart.Logs [(csr, written)] final := by
  have noted : hart.Logs [] (hart.note (.write csr written)) := .idle rfl rfl rfl
  unfold write
  dsimp only
  cases accepted : (hart.note (.write csr written)).store? csr written with
  | none => exact .inl ⟨_, rfl, noted⟩
  | some result => exact .inr ⟨result.2, rfl, noted.trans (.of_store? accepted)⟩

namespace Writes

theorem pure (result : α) : Writes touched (Pure.pure result : HartM α) := .refl touched

theorem bind {action : HartM α} {next : α → HartM β} (first : Writes touched action)
    (second : ∀ result, Writes touched (next result)) : Writes touched (action >>= next) := by
  intro hart
  have start := first hart
  cases ran : action hart with
  | ok result paused =>
    rw [finalHart, ran] at start
    rw [finalHart_bind_of_ok ran]
    exact start.trans (second result paused)
  | error stop final =>
    rw [finalHart, ran] at start
    rw [finalHart_bind_of_error ran]
    exact start

theorem ite {action other : HartM α} {condition : Prop} [Decidable condition]
    (first : Writes touched action) (second : Writes touched other) :
    Writes touched (if condition then action else other) := by
  split
  · exact first
  · exact second

/-- A step that is taken under a condition, and what follows it in any case. -/
theorem guarded {action : HartM Unit} {next : Unit → HartM β} {condition : Prop}
    [Decidable condition] (step : Writes touched action)
    (rest : ∀ result, Writes touched (next result)) :
    Writes touched (if condition then action >>= next else next ()) :=
  ite (step.bind rest) (rest ())

theorem read (csr : Csr) : Writes touched (read csr) := by
  intro hart
  unfold finalHart HartM.read
  cases hart.value? csr <;> exact .refl touched hart

theorem hasExtension (extension : Char) : Writes touched (hasExtension extension) :=
  (Writes.read .misa).bind fun _ => .pure _

theorem write {csr : Csr} (hit : touched csr) (value : Word) : Writes touched (write csr value) := by
  intro hart
  have stored := Hart.Reaches.store hit (.note hart (.write csr value)) rfl
  unfold finalHart HartM.write
  dsimp only
  cases tried : (hart.note (.write csr value)).store? csr value <;> rw [tried] at stored <;>
    exact stored

theorem swap {csr : Csr} (hit : touched csr) (value : Word) : Writes touched (swap csr value) := by
  intro hart
  have stored := Hart.Reaches.store hit (.note hart (.swap csr value)) rfl
  unfold finalHart HartM.swap
  dsimp only
  cases tried : (hart.note (.swap csr value)).store? csr value <;> rw [tried] at stored <;>
    exact stored

theorem probeRead (csr : Csr) : Writes touched (probeRead csr) :=
  fun hart => .of_notes (.note hart _) rfl

theorem probeWrite {csr : Csr} (hit : touched csr) (value : Word) :
    Writes touched (probeWrite csr value) := by
  intro hart
  unfold finalHart HartM.probeWrite
  cases tried : hart.probeStore? csr value with
  | none => exact .of_notes (.note hart _) rfl
  | some result =>
    obtain ⟨-, accepted⟩ := Option.ite_none_left_eq_some.mp tried
    exact .of_store? hit (.note hart _) rfl (Hart.store?_note accepted _)

theorem checked (computed : Except Overflow α) : Writes touched (checked computed) := by
  cases computed with
  | ok result => exact pure result
  | error operation => exact fun hart => .refl touched hart

/-- Actions on the members of a list are taken in turn. -/
theorem forM {step : α → HartM PUnit} (items : List α) (each : ∀ item, Writes touched (step item)) :
    Writes touched (items.forM step) := by
  induction items with
  | nil => exact pure _
  | cons item rest ih => exact (each item).bind fun _ => ih

theorem mono {wider : Csr → Prop} {action : HartM α} (writes : Writes touched action)
    (widens : ∀ csr, touched csr → wider csr) : Writes wider action :=
  fun hart => (writes hart).mono widens

theorem clearFloat (hit : touched .fcsr) : Writes touched clearFloat := by
  intro hart
  have noted : hart.Notes .clearFloat { hart.note .clearFloat with floatCleared := true } :=
    ⟨rfl, rfl, rfl, rfl⟩
  unfold finalHart HartM.clearFloat
  dsimp only
  generalize { hart.note .clearFloat with floatCleared := true } = cleared at noted ⊢
  have stored : hart.Reaches touched (((cleared.store? .fcsr 0).map Prod.snd).getD cleared) :=
    .store hit noted rfl
  cases present : cleared.implements .fcsr with
  | true =>
    rw [if_pos rfl]
    cases tried : cleared.store? .fcsr 0 <;> rw [tried] at stored <;> exact stored
  | false =>
    have absent : cleared.csrs[Csr.fcsr]? = none :=
      Std.ExtTreeMap.getElem?_eq_none_of_contains_eq_false present
    have refused : cleared.store? .fcsr 0 = none := by
      rw [Hart.store?_eq_none_iff, Hart.accepts, absent, Option.any_none]
    rw [refused] at stored
    rw [if_neg Bool.false_ne_true]
    exact stored

end Writes

end HartM

end HartBoot
