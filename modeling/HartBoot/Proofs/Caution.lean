import HartBoot.Features.Detect
import HartBoot.Proofs.Access

/-! # Detection takes no risks

A guarded access is safe on any register, and an unguarded exchange is safe on a register that has
just accepted a guarded write. A cautious action adds accesses of these two kinds to the history of
a hart, and no others, so the registers of the hart cannot stop it: whenever it stops, a computation
has overflowed. Detection is cautious on every hart, with or without outages, and whether it ends or
stops on the way.
-/

namespace HartBoot

/-- Histories of guarded accesses, and of exchanges that come right after an accepted guarded write
to the same register. -/
inductive Access.Guarded : List Access → Prop
  | nil : Guarded []
  | probeRead (csr : Csr) (found : Option Word) {rest : List Access} (later : Guarded rest) :
      Guarded (.probeRead csr found :: rest)
  | probeWrite (csr : Csr) (value : Word) (accepted : Bool) {rest : List Access}
      (later : Guarded rest) : Guarded (.probeWrite csr value accepted :: rest)
  | exchange (csr : Csr) (tried value : Word) {rest : List Access} (later : Guarded rest) :
      Guarded (.probeWrite csr tried true :: .swap csr value :: rest)

theorem Access.Guarded.append {first second : List Access} (early : Guarded first)
    (late : Guarded second) : Guarded (first ++ second) := by
  induction early with
  | nil => exact late
  | probeRead csr found _ ih => exact .probeRead csr found ih
  | probeWrite csr value accepted _ ih => exact .probeWrite csr value accepted ih
  | exchange csr tried value _ ih => exact .exchange csr tried value ih

/-- What a hart can have become by guarded accesses, and by exchanges that they allow. -/
structure Hart.Advances (before after : Hart) : Prop where
  history : ∃ accesses, after.trace.toList = before.trace.toList ++ accesses ∧
    Access.Guarded accesses
  evolves : CsrFile.Evolves (fun _ => True) before.csrs after.csrs
  outages : after.outages = before.outages
  floatCleared : after.floatCleared = before.floatCleared

namespace Hart.Advances

theorem refl (hart : Hart) : hart.Advances hart where
  history := ⟨[], (List.append_nil _).symm, .nil⟩
  evolves := .refl _ _
  outages := rfl
  floatCleared := rfl

theorem trans {first second third : Hart} (early : first.Advances second)
    (late : second.Advances third) : first.Advances third where
  history := by
    obtain ⟨added, grown, guarded⟩ := early.history
    obtain ⟨more, longer, careful⟩ := late.history
    exact ⟨added ++ more, by rw [longer, grown, List.append_assoc], guarded.append careful⟩
  evolves := early.evolves.trans late.evolves
  outages := late.outages.trans early.outages
  floatCleared := late.floatCleared.trans early.floatCleared

end Hart.Advances

namespace HartM

variable {α β : Type}

/-- An action makes guarded accesses, and exchanges that they allow, and stops on an overflow at
most. -/
def Cautious (action : HartM α) : Prop :=
  ∀ hart : Hart, hart.Advances (finalHart action hart) ∧
    ∀ stop final, action hart = .error stop final → ∃ operation, stop = .overflow operation

namespace Cautious

theorem pure (result : α) : Cautious (Pure.pure result : HartM α) :=
  fun hart => ⟨.refl hart, fun _ _ stopped => nomatch stopped⟩

theorem bind {action : HartM α} {next : α → HartM β} (first : Cautious action)
    (second : ∀ result, Cautious (next result)) : Cautious (action >>= next) := by
  intro hart
  obtain ⟨advanced, stops⟩ := first hart
  unfold finalHart at advanced ⊢
  simp only [Bind.bind, EStateM.bind]
  cases ran : action hart with
  | ok result paused =>
    rw [ran] at advanced
    obtain ⟨resumed, halts⟩ := second result paused
    exact ⟨advanced.trans resumed, halts⟩
  | error stop final =>
    rw [ran] at advanced
    refine ⟨advanced, ?_⟩
    rintro _ _ ⟨⟩
    exact stops stop final ran

theorem ite {action other : HartM α} {condition : Prop} [Decidable condition]
    (first : Cautious action) (second : Cautious other) :
    Cautious (if condition then action else other) := by
  split
  · exact first
  · exact second

theorem checked (computed : Except Overflow α) : Cautious (checked computed) := by
  intro hart
  cases computed with
  | ok result => exact pure result hart
  | error operation =>
    refine ⟨.refl hart, ?_⟩
    rintro _ _ ⟨⟩
    exact ⟨operation, rfl⟩

theorem probeRead (csr : Csr) : Cautious (probeRead csr) := by
  intro hart
  refine ⟨?_, fun _ _ stopped => nomatch stopped⟩
  exact { history := ⟨[_], Array.toList_push, .probeRead csr _ .nil⟩
          evolves := .refl _ _
          outages := rfl
          floatCleared := rfl }

/-- What an accepted guarded write leaves behind accepts the next write. -/
private theorem of_probeStore? {hart stored : Hart} {csr : Csr} {written previous : Word}
    (accepted : hart.probeStore? csr written = some (previous, stored)) :
    stored.trace = hart.trace ∧ stored.outages = hart.outages ∧
      stored.floatCleared = hart.floatCleared ∧
      CsrFile.Evolves (fun _ => True) hart.csrs stored.csrs ∧ stored.csrs.accepts csr = true := by
  obtain ⟨-, accepted⟩ := Option.ite_none_left_eq_some.mp accepted
  obtain ⟨register, found, unlocked, -, rfl⟩ := Hart.store?_eq_some_iff.mp accepted
  have evolves : CsrFile.Evolves (fun _ => True) hart.csrs (hart.csrs.write csr written) :=
    .write hart.csrs trivial written
  have kept := evolves.accepts_eq csr
  rw [CsrFile.write_of_accepts found unlocked] at evolves kept
  exact ⟨rfl, rfl, rfl, evolves, kept.trans (CsrFile.accepts_iff.mpr ⟨register, found, unlocked⟩)⟩

theorem probeWrite (csr : Csr) (value : Word) : Cautious (probeWrite csr value) := by
  intro hart
  unfold finalHart HartM.probeWrite
  cases tried : hart.probeStore? csr value with
  | none =>
    refine ⟨?_, fun _ _ stopped => nomatch stopped⟩
    exact { history := ⟨[_], Array.toList_push, .probeWrite csr value false .nil⟩
            evolves := .refl _ _
            outages := rfl
            floatCleared := rfl }
  | some result =>
    obtain ⟨previous, stored⟩ := result
    obtain ⟨trace, outages, floats, evolves, -⟩ := of_probeStore? tried
    refine ⟨?_, fun _ _ stopped => nomatch stopped⟩
    exact { history := ⟨[_], Array.toList_push.trans (by rw [trace]),
              .probeWrite csr value true .nil⟩
            evolves := evolves
            outages := outages
            floatCleared := floats }

/-- A guarded write, and what follows it. Where the write is accepted, this may be an exchange of
the same register. -/
theorem exchange {next : Except TrapRecord Unit → HartM β} {resume : Word → HartM β} (csr : Csr)
    (tried value : Word) (accepted : next (.ok ()) = swap csr value >>= resume)
    (refused : ∀ trap, Cautious (next (.error trap))) (resumed : ∀ found, Cautious (resume found)) :
    Cautious (HartM.probeWrite csr tried >>= next) := by
  intro hart
  cases written : hart.probeStore? csr tried with
  | none =>
    have ran : HartM.probeWrite csr tried hart =
        .ok (.error (Hart.trapFor csr)) (hart.note (.probeWrite csr tried false)) := by
      simp only [HartM.probeWrite, written]
    have advanced := (probeWrite csr tried hart).1
    obtain ⟨rest, stops⟩ := refused (Hart.trapFor csr) (hart.note (.probeWrite csr tried false))
    rw [finalHart, ran] at advanced
    rw [finalHart, bind_ok ran]
    exact ⟨advanced.trans rest, stops⟩
  | some result =>
    obtain ⟨previous, stored⟩ := result
    obtain ⟨trace, outages, floats, evolves, ready⟩ := of_probeStore? written
    have ran : HartM.probeWrite csr tried hart =
        .ok (.ok ()) (stored.note (.probeWrite csr tried true)) := by
      simp only [HartM.probeWrite, written]
    obtain ⟨register, found, unlocked⟩ := CsrFile.accepts_iff.mp ready
    let paused := stored.note (.probeWrite csr tried true)
    let noted := paused.note (.swap csr value)
    let swapped := { noted with
      csrs := noted.csrs.insert csr (register.store value)
      writes := noted.writes.push (csr, value) }
    have put : noted.store? csr value = some (register.value, swapped) :=
      Hart.store?_eq_some_iff.mpr ⟨register, found, unlocked, rfl, rfl⟩
    have exchanged : swap csr value paused = .ok register.value swapped := by
      simp only [swap, noted, put]
    have restored : CsrFile.Evolves (fun _ => True) stored.csrs (stored.csrs.write csr value) :=
      .write stored.csrs trivial value
    rw [CsrFile.write_of_accepts found unlocked] at restored
    have advanced : hart.Advances swapped := {
      history := by
        refine ⟨[.probeWrite csr tried true, .swap csr value], ?_, .exchange csr tried value .nil⟩
        simp only [swapped, noted, paused, Hart.note, trace, Array.toList_push, List.append_assoc]
        rfl
      evolves := evolves.trans restored
      outages := outages
      floatCleared := floats }
    obtain ⟨rest, stops⟩ := resumed register.value swapped
    have continued : (HartM.probeWrite csr tried >>= next) hart = resume register.value swapped := by
      rw [bind_ok ran, accepted, bind_ok exchanged]
    rw [finalHart, continued]
    exact ⟨advanced.trans rest, stops⟩

end Cautious

theorem cautious_holds (csr : Csr) (value : Word) : Cautious (holds csr value) := by
  refine (Cautious.probeRead csr).bind fun report => ?_
  cases report with
  | error trap => exact .pure false
  | ok previous =>
    refine .ite (.pure true) ?_
    exact .exchange csr value previous rfl (fun _ => .pure false) fun found => .pure (found == value)

theorem cautious_writableBits? (csr : Csr) : Cautious (writableBits? csr) := by
  refine (Cautious.probeRead csr).bind fun report => ?_
  cases report with
  | error trap => exact .pure none
  | ok previous =>
    exact .exchange csr Word.ones previous rfl (fun _ => .pure none) fun found => .pure (some found)

theorem cautious_isControllable (csr : Csr) : Cautious (isControllable csr) := by
  refine (Cautious.probeRead csr).bind fun report => ?_
  cases report with
  | error trap => exact .pure false
  | ok content => exact (Cautious.probeWrite csr content).bind fun answer => .pure answer.isOk

theorem cautious_leadingRun {test : Csr → HartM Bool} (tested : ∀ csr, Cautious (test csr))
    (csrs : List Csr) : Cautious (leadingRun test csrs) := by
  induction csrs with
  | nil => exact .pure 0
  | cons csr rest ih =>
    exact (tested csr).bind fun passed => .ite (ih.bind fun count => .pure (count + 1)) (.pure 0)

theorem cautious_probeAddress : Cautious probeAddress := by
  refine (Cautious.probeWrite .pmpcfg0 0).bind fun configured => ?_
  cases configured with
  | error trap => exact .pure 0
  | ok _ =>
    refine (Cautious.probeWrite .pmpaddr0 addressPattern).bind fun addressed => ?_
    cases addressed with
    | error trap => exact .pure 0
    | ok _ => exact (Cautious.probeRead .pmpaddr0).bind fun report => .pure _

theorem cautious_detectPmp (record : FeatureRecord) : Cautious (detectPmp record) := by
  refine cautious_probeAddress.bind fun pattern => .ite (.pure record) ?_
  refine (Cautious.checked _).bind fun granularity => ?_
  exact (cautious_leadingRun (cautious_holds · pattern) _).bind fun count => .pure _

theorem cautious_detectCounters (record : FeatureRecord) : Cautious (detectCounters record) := by
  refine (cautious_holds .mhpmcounter3 1).bind fun present => .ite ?_ (.pure record)
  refine (cautious_writableBits? .mhpmcounter3).bind fun bits => ?_
  exact (cautious_leadingRun (cautious_holds · 1) _).bind fun count => .pure _

theorem cautious_detectOptional (record : FeatureRecord) : Cautious (detectOptional record) := by
  refine (cautious_isControllable .scounteren).bind fun readable => ?_
  refine (cautious_isControllable .mcounteren).bind fun opened => ?_
  refine (cautious_isControllable .mcountinhibit).bind fun stopped => ?_
  have clock (found : FeatureRecord) : Cautious (do
      return addFeature found (← probeRead .time).isOk FeatureFlags.time) :=
    (Cautious.probeRead .time).bind fun _ => .pure _
  refine .ite ?_ ?_
  · exact (Cautious.probeRead .scountovf).bind fun _ => (Cautious.pure _).bind clock
  · exact (Cautious.pure _).bind clock

theorem cautious_detect : Cautious detect :=
  (cautious_detectPmp {}).bind fun first => (cautious_detectCounters first).bind
    cautious_detectOptional

end HartM

end HartBoot
