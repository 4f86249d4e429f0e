import HartBoot.Proofs.Records

/-! # Boots without a place for the feature record

A cold boot is out of memory exactly if no place is reserved for the feature record and none is left
behind what was handed out, and a warm boot comes too early exactly if no place is reserved. Such a
boot is refused before it looks at its hart or its area, and nothing changes, so that what is free
can still be handed out in smaller pieces. Reservations are never given back: a cluster that is out
of memory for the record stays so, whatever is done to it. A boot that has a place for the record
can fail for one reason only, the state of its floating-point unit.
-/

namespace HartBoot

/-- Rounding up keeps the order of numbers. -/
theorem roundUp_le_roundUp {smaller larger : Nat} (ordered : smaller ≤ larger) (unit : Nat) :
    roundUp smaller unit ≤ roundUp larger unit :=
  Nat.mul_le_mul_right unit (Nat.div_le_div_right (Nat.add_le_add_right ordered (unit - 1)))

namespace Allocator

/-- There is no place for an item exactly if it does not fit behind what was handed out, unless its
alignment is larger than that of an area. -/
theorem alloc?_eq_none_iff (allocator : Allocator) {α : Type} [Item α]
    (alignable : Item.align α ≤ Area.alignment) :
    allocator.alloc? α = none ↔
      Area.size < roundUp allocator.next (Item.align α) + Item.size α := by
  rw [← Option.not_isSome_iff_eq_none, isSome_alloc?_iff, not_and, Nat.not_le]
  exact ⟨fun full => full alignable, fun full _ => full⟩

/-- What is free only ever shrinks. -/
theorem next_le_of_alloc? {α : Type} [Item α] {allocator rest : Allocator} {offset : Offset α}
    (reserved : allocator.alloc? α = some (offset, rest)) : allocator.next ≤ rest.next := by
  obtain ⟨start, filled, -⟩ := of_alloc? reserved
  rw [filled]
  exact Nat.le_trans start (Nat.le_add_right ..)

end Allocator

/-- No place is reserved for the feature record, and none is left. -/
structure Shared.Exhausted (shared : Shared) : Prop where
  missing : shared.featureOffset = none
  full : Area.size < roundUp shared.offsets.next 8 + 32

/-- Out of memory means that there is no place to reserve. -/
theorem Shared.exhausted_iff (shared : Shared) :
    shared.Exhausted ↔
      shared.featureOffset = none ∧ shared.offsets.alloc? FeatureRecord = none := by
  rw [Allocator.alloc?_eq_none_iff shared.offsets (by decide)]
  exact ⟨fun exhausted => ⟨exhausted.missing, exhausted.full⟩, fun ⟨missing, full⟩ => ⟨missing, full⟩⟩

namespace HartM

/-- Floating-point registers that are not cleared cannot be switched on. -/
theorem of_resetFloat_error {hart final : Hart} {error : HartError}
    (refused : resetFloat hart = .ok (.error error) final) : error = .invalidState := by
  obtain ⟨float, paused, -, ran⟩ := bind_eq_ok_iff.mp refused
  split at ran
  · obtain ⟨status, read, -, ran⟩ := bind_eq_ok_iff.mp ran
    split at ran
    · obtain ⟨same, -⟩ := EStateM.Result.ok.inj ran
      exact (Except.error.inj same).symm
    · obtain ⟨-, cleared, -, ended⟩ := bind_eq_ok_iff.mp ran
      cases ended
  · cases ran

/-- A hart that does not reach its baseline, although it goes on, is in an invalid state. -/
theorem of_restore_error {record : FeatureRecord} {platform : Platform} {hart final : Hart}
    {error : HartError} (refused : restore record platform hart = .ok (.error error) final) :
    error = .invalidState := by
  obtain ⟨-, reset, -, ran⟩ := bind_eq_ok_iff.mp refused
  obtain ⟨floats, paused, tried, ran⟩ := bind_eq_ok_iff.mp ran
  cases floats with
  | error reason =>
    obtain ⟨same, -⟩ := EStateM.Result.ok.inj ran
    exact Except.error.inj same ▸ of_resetFloat_error tried
  | ok _ =>
    obtain ⟨-, delegated, -, ended⟩ := bind_eq_ok_iff.mp ran
    cases ended

end HartM

namespace BootM

variable {machine : Machine} {platform : Platform} {cold : Bool} {error : HartError}

/-- There is no place for the feature record on a cold boot that is out of memory, and on a warm
boot that comes too early. -/
theorem featureOffset_eq_error_iff :
    featureOffset cold machine = .ok (.error error) machine ↔
      cold = true ∧ machine.shared.Exhausted ∧ error = .noMemory ∨
        cold = false ∧ machine.shared.featureOffset = none ∧ error = .uninitialized := by
  rw [Shared.exhausted_iff]
  constructor
  · intro refused
    obtain ⟨missing, -⟩ := of_featureOffset_error refused
    rw [featureOffset_of_none missing] at refused
    cases cold with
    | true =>
      cases full : machine.shared.offsets.alloc? FeatureRecord with
      | some place => simp [full] at refused
      | none =>
        simp only [full, if_true, EStateM.Result.ok.injEq, Except.error.injEq, and_true] at refused
        exact .inl ⟨rfl, ⟨missing, rfl⟩, refused.symm⟩
    | false =>
      obtain ⟨same, -⟩ := EStateM.Result.ok.inj refused
      exact .inr ⟨rfl, missing, (Except.error.inj same).symm⟩
  · rintro (⟨rfl, ⟨missing, full⟩, rfl⟩ | ⟨rfl, missing, rfl⟩)
    · rw [featureOffset_of_none missing, if_pos rfl, full]
    · rw [featureOffset_of_none missing, if_neg Bool.false_ne_true]

/-- Without a place for the feature record, initialization is refused and leaves everything as it
is. -/
theorem init_of_refused (refused : featureOffset cold machine = .ok (.error error) machine) :
    init platform cold machine = .ok (.error error) machine := by
  rw [init, bind_ok refused]
  rfl

/-- With a place for the feature record, initialization fails in an invalid state only. -/
theorem of_init_error {shared : Shared} {offset : Offset FeatureRecord} {final : Machine}
    (given : featureOffset cold machine = .ok (.ok offset) { machine with shared })
    (place : shared.featureOffset = some offset)
    (failed : init platform cold machine = .ok (.error error) final) : error = .invalidState := by
  rw [init, bind_ok given] at failed
  dsimp only at failed
  obtain ⟨record, detected, ran, failed⟩ := bind_eq_ok_iff.mp failed
  obtain ⟨hart, -, rfl⟩ := onHart_eq_ok_iff.mp ran
  rw [bind_ok (modify_eq _ _)] at failed
  obtain ⟨_, reported, ran, failed⟩ := bind_eq_ok_iff.mp failed
  have quiet := ((Discreet.reportFeatures record).memory
    { hart, area := machine.area.put offset record, shared }).2
  rw [finalMachine_of_ok ran] at quiet
  have kept := (Shared.featureOffset_eq_of_silent quiet).trans place
  rw [reinit, bind_ok (get_eq reported), kept] at failed
  obtain ⟨restored, ran, -⟩ := onHart_eq_ok_iff.mp failed
  exact HartM.of_restore_error ran

end BootM

namespace Cluster

variable {cluster : Cluster} {cold : Bool} {error : HartError}

/-- A refused boot is refused on every hart and area, and leaves the whole cluster as it is. -/
theorem perform_init_of_refused {hart area : Nat}
    (refused : BootM.featureOffset cold (cluster.machine hart area) =
      .ok (.error error) (cluster.machine hart area)) (platform : Platform) :
    cluster.perform hart area (BootM.init platform cold) = (.ok (.error error), cluster) := by
  have settled : cluster.settle hart area (cluster.machine hart area) = cluster := by
    simp only [settle, machine, Function.update_eq_self]
  rw [perform, BootM.init_of_refused refused]
  exact congrArg _ settled

/-- A boot fails before it reaches the state of its hart exactly if there is no place for the feature
record. -/
theorem perform_init_eq_error_iff (valid : error ≠ .invalidState) (hart area : Nat)
    (platform : Platform) :
    (cluster.perform hart area (BootM.init platform cold)).1 = .ok (.error error) ↔
      cold = true ∧ cluster.shared.Exhausted ∧ error = .noMemory ∨
        cold = false ∧ cluster.shared.featureOffset = none ∧ error = .uninitialized := by
  have refusal : BootM.featureOffset cold (cluster.machine hart area) =
      .ok (.error error) (cluster.machine hart area) ↔ _ := BootM.featureOffset_eq_error_iff
  refine Iff.trans ⟨fun failed => ?_, fun refused => ?_⟩ refusal
  · rcases BootM.featureOffset_cases cold (cluster.machine hart area) with
      ⟨reason, refused⟩ | ⟨offset, shared, given, place⟩
    · rw [perform_init_of_refused refused] at failed
      obtain rfl := Except.error.inj (Except.ok.inj failed)
      exact refused
    · rw [perform] at failed
      cases ran : BootM.init platform cold (cluster.machine hart area) with
      | ok result final =>
        rw [ran] at failed
        obtain rfl := Except.ok.inj failed
        exact absurd (BootM.of_init_error given place ran) valid
      | error stop final =>
        rw [ran] at failed
        cases failed
  · rw [perform_init_of_refused refused]

/-- No call finds memory for the feature record where there is none. -/
theorem exhausted_run (exhausted : cluster.shared.Exhausted) (call : ClusterCall) :
    (cluster.run call).shared.Exhausted := by
  have full := ((Shared.exhausted_iff _).mp exhausted).2
  have missing := featureOffset_run_of_none exhausted.missing call
  rw [full, Option.map_none, ite_self] at missing
  refine ⟨missing, ?_⟩
  have grown : cluster.shared.offsets.next ≤ (cluster.run call).shared.offsets.next := by
    cases call with
    | init hart area platform cold =>
      cases cold with
      | true =>
        have refused := BootM.featureOffset_eq_error_iff.mpr
          (.inl ⟨rfl, show (cluster.machine hart area).shared.Exhausted from exhausted, rfl⟩)
        rw [run, perform_init_of_refused refused]
      | false =>
        have unplaced : (cluster.machine hart area).shared.featureOffset = none := exhausted.missing
        have refused := BootM.featureOffset_eq_error_iff.mpr (.inr ⟨rfl, unplaced, rfl⟩)
        rw [run, perform_init_of_refused refused]
    | reinit hart area platform =>
      exact Nat.le_of_eq (congrArg Allocator.next
        (Shared.offsets_eq_of_silent (silent_run_reinit hart area platform)).symm)
    | alloc kind =>
      rw [run]
      split
      next placed => exact Allocator.next_le_of_alloc? placed
      next => exact Nat.le_refl _
    | put area cell item => exact Nat.le_refl _
  exact Nat.lt_of_lt_of_le exhausted.full (Nat.add_le_add_right (roundUp_le_roundUp grown 8) 32)

/-- A cluster that is out of memory for the feature record stays so. -/
theorem exhausted_runAll (exhausted : cluster.shared.Exhausted) (calls : List ClusterCall) :
    (cluster.runAll calls).shared.Exhausted := by
  induction calls generalizing cluster with
  | nil => exact exhausted
  | cons call rest ih => exact ih (exhausted_run exhausted call)

/-- Without a cold boot, no place is reserved for the feature record. -/
theorem featureOffset_runAll_of_none (missing : cluster.shared.featureOffset = none)
    {calls : List ClusterCall} (warm : ∀ call ∈ calls, call.isCold = false) :
    (cluster.runAll calls).shared.featureOffset = none := by
  induction calls generalizing cluster with
  | nil => exact missing
  | cons call rest ih =>
    have still := featureOffset_run_of_none missing call
    rw [warm call List.mem_cons_self, if_neg Bool.false_ne_true] at still
    exact ih still fun later member => warm later (List.mem_cons_of_mem call member)

/-- In every state of what harts share, and on every hart and area, a cold boot is out of memory
exactly if no place is reserved for the feature record and its 32 bytes do not fit behind what was
handed out, and a warm boot comes too early exactly if no place is reserved. Such a boot changes
nothing, whatever the hart and the area are. Afterwards a warm boot still comes too early, and a cold
boot that was out of memory stays so, whatever is done in between and wherever they are tried. Every
other boot that fails does so in an invalid state. -/
theorem init_refused_iff (cluster : Cluster) (hart area : Nat) (platform : Platform)
    (cold : Bool) :
    let answer := cluster.perform hart area (BootM.init platform cold)
    (answer.1 = .ok (.error .noMemory) ↔
      cold = true ∧ cluster.shared.featureOffset = none ∧
        Area.size < roundUp cluster.shared.offsets.next 8 + 32) ∧
    (answer.1 = .ok (.error .uninitialized) ↔
      cold = false ∧ cluster.shared.featureOffset = none) ∧
    (∀ error, answer.1 = .ok (.error error) → error ≠ .invalidState →
      answer.2 = cluster ∧
      (∀ (other : Hart) (elsewhere : Area),
        BootM.init platform cold ⟨other, elsewhere, cluster.shared⟩ =
          .ok (.error error) ⟨other, elsewhere, cluster.shared⟩) ∧
      ∀ calls : List ClusterCall,
        (error = .uninitialized → ∀ call ∈ calls, call.isCold = false) →
        ∀ (later place : Nat) (again : Platform),
          ((answer.2.runAll calls).perform later place (BootM.init again false)).1 =
            .ok (.error .uninitialized) ∧
          (error = .noMemory →
            ((answer.2.runAll calls).perform later place (BootM.init again true)).1 =
              .ok (.error .noMemory))) ∧
    ∀ error, answer.1 = .ok (.error error) →
      ¬(cold = true ∧ cluster.shared.featureOffset = none ∧
        Area.size < roundUp cluster.shared.offsets.next 8 + 32) →
      ¬(cold = false ∧ cluster.shared.featureOffset = none) → error = .invalidState := by
  intro answer
  have early {error : HartError} (valid : error ≠ .invalidState) :
      answer.1 = .ok (.error error) ↔ _ := perform_init_eq_error_iff valid hart area platform
  have memory : answer.1 = .ok (.error .noMemory) ↔ cold = true ∧ cluster.shared.Exhausted := by
    rw [early (by decide)]
    simp
  have order : answer.1 = .ok (.error .uninitialized) ↔
      cold = false ∧ cluster.shared.featureOffset = none := by
    rw [early (by decide)]
    simp
  have exhausted : cluster.shared.Exhausted ↔ cluster.shared.featureOffset = none ∧
      Area.size < roundUp cluster.shared.offsets.next 8 + 32 :=
    ⟨fun ⟨missing, full⟩ => ⟨missing, full⟩, fun ⟨missing, full⟩ => ⟨missing, full⟩⟩
  rw [exhausted] at memory
  refine ⟨memory, order, fun error failed valid => ?_, fun error failed room reserved => ?_⟩
  · have cause := (early valid).mp failed
    have refused (machine : Machine) (same : machine.shared = cluster.shared) :
        BootM.featureOffset cold machine = .ok (.error error) machine :=
      BootM.featureOffset_eq_error_iff.mpr (same.symm ▸ cause)
    have unchanged : answer.2 = cluster :=
      congrArg Prod.snd (perform_init_of_refused (refused (cluster.machine hart area) rfl) platform)
    refine ⟨unchanged, fun other elsewhere => ?_, fun calls warm later place again => ?_⟩
    · exact BootM.init_of_refused (refused ⟨other, elsewhere, cluster.shared⟩ rfl)
    · rw [unchanged, perform_init_eq_error_iff (by decide), perform_init_eq_error_iff (by decide)]
      rcases cause with ⟨-, full, rfl⟩ | ⟨-, missing, rfl⟩
      · have still := exhausted_runAll full calls
        exact ⟨.inr ⟨rfl, still.missing, rfl⟩, fun _ => .inl ⟨rfl, still, rfl⟩⟩
      · exact ⟨.inr ⟨rfl, featureOffset_runAll_of_none missing (warm rfl), rfl⟩, nofun⟩
  · cases error with
    | noMemory => exact absurd (memory.mp failed) room
    | uninitialized => exact absurd (order.mp failed) reserved
    | invalidState => rfl

end Cluster

end HartBoot
