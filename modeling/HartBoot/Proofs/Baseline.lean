import HartBoot.Boot
import HartBoot.Proofs.Access

/-! # What the baseline rewrites

Bringing a hart to its baseline rewrites status, counter, interrupt, paging and delegation
registers. All of them are numbered below those of memory protection, so the protection of a hart
survives it, whether the baseline is reached or the hart stops on the way. A hart without optional
parts reaches it by two writes.
-/

namespace HartBoot

namespace HartM

/-- The registers that are numbered below those of memory protection. -/
def BelowPmp (csr : Csr) : Prop := csr.number.toNat < 0x3a0

instance (csr : Csr) : Decidable (BelowPmp csr) := inferInstanceAs (Decidable (_ < _))

variable {touched : Csr → Prop}

theorem writes_hasFloat : Writes touched hasFloat := by
  refine (Writes.hasExtension 'F').bind fun _ => ?_
  exact .ite (.pure true) (.hasExtension 'D')

/-- The registers that are rewritten before traps are delegated. -/
def resetRegisters : List Csr :=
  [.mstatus, .scounteren, .mcounteren, .mcountinhibit, .mie, .satp, .fcsr]

theorem writes_resetStatus (hit : ∀ csr ∈ resetRegisters, touched csr) (record : FeatureRecord) :
    Writes touched (resetStatus record) := by
  refine writes_hasFloat.bind fun _ => ?_
  refine (Writes.hasExtension 'V').bind fun _ => ?_
  refine (Writes.write (hit .mstatus (by decide)) _).bind fun _ => ?_
  refine (Writes.hasExtension 'S').bind fun _ => ?_
  refine .guarded (.write (hit .scounteren (by decide)) _) fun _ => ?_
  refine .guarded (.write (hit .mcounteren (by decide)) _) fun _ => ?_
  refine .guarded (.write (hit .mcountinhibit (by decide)) _) fun _ => ?_
  refine (Writes.write (hit .mie (by decide)) _).bind fun _ => ?_
  exact .ite (.write (hit .satp (by decide)) _) (.pure ())

theorem writes_resetFloat (hit : ∀ csr ∈ resetRegisters, touched csr) :
    Writes touched resetFloat := by
  refine writes_hasFloat.bind fun _ => .ite ?_ (.pure _)
  refine (Writes.read .mstatus).bind fun _ => .ite (.pure _) ?_
  exact (Writes.clearFloat (hit .fcsr (by decide))).bind fun _ => .pure _

/-- What is reset before traps are delegated. -/
def reset (record : FeatureRecord) : HartM (Except HartError Unit) := do
  resetStatus record
  resetFloat

theorem restore_eq (record : FeatureRecord) (platform : Platform) :
    restore record platform = reset record >>= fun result =>
      match result with
      | .error error => return .error error
      | .ok () => do
        delegateTraps record platform
        return .ok () := by
  rw [reset, bind_assoc]
  rfl

theorem writes_reset (hit : ∀ csr ∈ resetRegisters, touched csr)
    (record : FeatureRecord) : Writes touched (reset record) :=
  (writes_resetStatus hit record).bind fun _ => writes_resetFloat hit

theorem writes_delegateTraps (record : FeatureRecord) (platform : Platform) :
    Writes BelowPmp (delegateTraps record platform) := by
  refine (Writes.hasExtension 'S').bind fun _ => .ite ?_ (.pure ())
  refine (Writes.hasExtension 'H').bind fun _ => ?_
  refine (Writes.write (by decide) _).bind fun _ => ?_
  exact .write (by decide) _

theorem writes_restore (record : FeatureRecord) (platform : Platform) :
    Writes BelowPmp (restore record platform) := by
  rw [restore_eq]
  refine (writes_reset (by decide) record).bind fun result => ?_
  cases result with
  | error error => exact .pure _
  | ok _ => exact (writes_delegateTraps record platform).bind fun _ => .pure _

end HartM

namespace CsrFile

/-- A hart that advertises no extension and has no counters to open or to stop. -/
structure Bare (file : CsrFile) : Prop where
  advertised : file[Csr.misa]? = some { value := Misa.bare, writable := 0, readOnly := true }
  status : file.accepts .mstatus = true
  interrupts : file.accepts .mie = true
  unopened : file.accepts .mcounteren = false
  unstopped : file.accepts .mcountinhibit = false

variable {touched : Csr → Prop} {before after file : CsrFile}

theorem Bare.evolve (bare : before.Bare) (evolves : Evolves touched before after) :
    after.Bare where
  advertised := evolves.of_readOnly bare.advertised rfl
  status := (evolves.accepts_eq _).trans bare.status
  interrupts := (evolves.accepts_eq _).trans bare.interrupts
  unopened := (evolves.accepts_eq _).trans bare.unopened
  unstopped := (evolves.accepts_eq _).trans bare.unstopped

theorem Bare.write (bare : file.Bare) (csr : Csr) (written : Word) : (file.write csr written).Bare :=
  bare.evolve (@Evolves.write (fun _ => True) file csr trivial written)

end CsrFile

namespace HartM

variable {outages : List Outage} {file : CsrFile}

theorem gives_hasExtension_bare (bare : file.Bare) {extension : Char}
    (absent : Misa.has Misa.bare extension = false) :
    Gives outages (hasExtension extension) file false file := by
  have found : file.value? .misa = some Misa.bare := CsrFile.value?_of_some bare.advertised
  exact ((gives_read found).map fun misa => Misa.has misa extension).congr absent

theorem gives_hasFloat_bare (bare : file.Bare) : Gives outages hasFloat file false file :=
  (gives_hasExtension_bare bare (by decide)).bind (gives_hasExtension_bare bare (by decide))

/-- A bare hart reaches its baseline. -/
theorem gives_restore_bare (bare : file.Bare) {record : FeatureRecord}
    (unopened : record.has FeatureFlags.mcounteren = false)
    (unstopped : record.has FeatureFlags.mcountinhibit = false) (platform : Platform) :
    Gives outages (restore record platform) file (.ok ()) ((file.write .mstatus 0).write .mie 0) := by
  have status := bare.write .mstatus 0
  have final := status.write .mie 0
  have reset : Gives outages (resetStatus record) file () ((file.write .mstatus 0).write .mie 0) := by
    refine (gives_hasFloat_bare bare).bind ?_
    refine (gives_hasExtension_bare bare (by decide)).bind ?_
    refine (gives_write bare.status _).bind ?_
    refine (gives_hasExtension_bare status (by decide)).bind ?_
    dsimp only
    rw [if_neg (by simp), if_neg (by simp [unopened]), if_neg (by simp [unstopped])]
    exact (gives_write status.interrupts 0).bind (.pure _ _)
  have float : Gives outages resetFloat ((file.write .mstatus 0).write .mie 0) (.ok ())
      ((file.write .mstatus 0).write .mie 0) :=
    (gives_hasFloat_bare final).bind (.pure _ _)
  have delegated : Gives outages (delegateTraps record platform)
      ((file.write .mstatus 0).write .mie 0) () ((file.write .mstatus 0).write .mie 0) :=
    (gives_hasExtension_bare final (by decide)).bind (.pure _ _)
  exact reset.bind (float.bind (delegated.bind (.pure _ _)))

end HartM

end HartBoot
