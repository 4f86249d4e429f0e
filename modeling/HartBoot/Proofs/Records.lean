import HartBoot.Proofs.Discretion
import HartBoot.Proofs.Establishment
import HartBoot.Proofs.Reservation

/-! # Every area holds its own latest record

The place of the feature record is shared by all harts, and so is the allocator that it comes from,
which other parts of the firmware use as well. Initializations may come in any order, on any harts
and areas, before and after other reservations, and may fail or stop at any point. The place is
reserved once, when a cold boot finds room for it. From then on every scratch area holds the record
that was last detected for it, and nothing else that happens in the cluster gets in the way.
-/

namespace HartBoot

/-- A record that is made up of zeros tells of nothing. -/
theorem FeatureRecord.decode_zeros : decode (List.replicate byteSize 0) = {} := by decide

/-- Whether a call is a cold boot. -/
def ClusterCall.isCold : ClusterCall → Bool
  | .init _ _ _ cold => cold
  | .reinit .. | .alloc _ | .put .. => false

namespace Cluster

/-- The record that a call detects, and the area that it is detected for. Initialization detects
once it has a place for the record, and the hart may be stopped before detection is completed. -/
def detection? (cluster : Cluster) : ClusterCall → Option (Nat × FeatureRecord)
  | .init hart area _ cold =>
    match BootM.featureOffset cold (cluster.machine hart area),
      HartM.detect (cluster.harts hart) with
    | .ok (.ok _) _, .ok record _ => some (area, record)
    | _, _ => none
  | .reinit .. | .alloc _ | .put .. => none

/-- What is known about every area when a record has been detected or not. -/
def learn (records : Nat → FeatureRecord) : Option (Nat × FeatureRecord) → Nat → FeatureRecord
  | some (area, record) => Function.update records area record
  | none => records

/-- For every area, the record that calls in turn have detected last, or else a given one. -/
def detected : Cluster → (Nat → FeatureRecord) → List ClusterCall → Nat → FeatureRecord
  | _, records, [] => records
  | cluster, records, call :: rest =>
    (cluster.run call).detected (learn records (cluster.detection? call)) rest

end Cluster

/-- The areas hold the given records at the place of the feature record. Before there is such a
place, the records are empty, as is all memory that can still be reserved. -/
structure Tracks (shared : Shared) (cells : List Cell) (areas : Nat → Area)
    (records : Nat → FeatureRecord) : Prop where
  reserved : Reserved shared.offsets (shared.featureOffset.toList.map Cell.ofFeatures ++ cells)
  counted : shared.offsets.allocated = cells.length + shared.featureOffset.toList.length
  vacant : ∀ area, (areas area).Vacant shared.offsets.next
  holds : ∀ offset, shared.featureOffset = some offset →
    ∀ area, (areas area).get offset = records area
  empty : shared.featureOffset = none → records = fun _ => {}

namespace Tracks

variable {shared : Shared} {cells : List Cell} {areas : Nat → Area} {records : Nat → FeatureRecord}
  {offset : Offset FeatureRecord}

theorem pristine (terminal : Terminal) :
    Tracks { terminal } [] (fun _ => .blank) fun _ => {} where
  reserved := .fresh
  counted := rfl
  vacant _ := Area.vacant_blank _
  holds offset found := by cases found
  empty _ := rfl

/-- What was printed does not matter. -/
theorem congr_silent (tracks : Tracks shared cells areas records) {other : Shared}
    (same : other.silent = shared.silent) : Tracks other cells areas records := by
  have offsets := Shared.offsets_eq_of_silent same
  have place := Shared.featureOffset_eq_of_silent same
  constructor
  · rw [offsets, place]
    exact tracks.reserved
  · rw [offsets, place]
    exact tracks.counted
  · rw [offsets]
    exact tracks.vacant
  · rw [place]
    exact tracks.holds
  · rw [place]
    exact tracks.empty

/-- A place for the feature record is filled with zeros when it is reserved. -/
theorem reserve (tracks : Tracks shared cells areas records) {offsets : Allocator}
    (missing : shared.featureOffset = none)
    (placed : shared.offsets.alloc? FeatureRecord = some (offset, offsets)) :
    Tracks { shared with offsets, featureOffset := some offset } cells areas records := by
  obtain ⟨start, filled, counted⟩ := Allocator.of_alloc? placed
  have reserved := tracks.reserved
  have before := tracks.counted
  rw [missing] at reserved before
  have asked : shared.offsets.alloc? (ItemKind.Carrier .features) = some (offset, offsets) := placed
  refine ⟨reserved.alloc asked, ?_, ?_, ?_, fun absent => by cases absent⟩
  · rw [counted, before]
    rfl
  · exact fun area => (tracks.vacant area).mono (by rw [filled]; omega)
  · intro place located area
    obtain rfl : offset = place := Option.some.inj located
    have zeros := (tracks.vacant area).get_eq (.ofFeatures offset) start
    rw [tracks.empty missing]
    exact zeros.trans FeatureRecord.decode_zeros

/-- Other parts of the firmware are given cells apart from the place of the feature record. -/
theorem alloc (tracks : Tracks shared cells areas records) {kind : ItemKind}
    {place : Offset kind.Carrier} {offsets : Allocator}
    (placed : shared.offsets.alloc? kind.Carrier = some (place, offsets)) :
    Tracks { shared with offsets } (⟨kind, place⟩ :: cells) areas records := by
  obtain ⟨start, filled, counted⟩ := Allocator.of_alloc? placed
  refine ⟨(tracks.reserved.alloc placed).perm List.perm_middle.symm, ?_, ?_, tracks.holds,
    tracks.empty⟩
  · rw [counted, tracks.counted, List.length_cons, Nat.add_right_comm]
  · exact fun area => (tracks.vacant area).mono (by rw [filled]; omega)

/-- A change of one area that keeps what is free empty keeps it empty everywhere. -/
theorem vacant_update (tracks : Tracks shared cells areas records) {area : Nat} {content : Area}
    (vacant : content.Vacant shared.offsets.next) :
    ∀ other, (Function.update areas area content other).Vacant shared.offsets.next :=
  (Function.forall_update_iff areas fun _ content => content.Vacant shared.offsets.next).mpr
    ⟨vacant, fun other _ => tracks.vacant other⟩

/-- What other parts of the firmware write to their cells leaves all records alone. -/
theorem put (tracks : Tracks shared cells areas records) {cell : Cell} (member : cell ∈ cells)
    (area : Nat) (item : cell.kind.Carrier) :
    Tracks shared cells (Function.update areas area ((areas area).put cell.offset item))
      records where
  reserved := tracks.reserved
  counted := tracks.counted
  vacant :=
    have below := tracks.reserved.within cell (List.mem_append_right _ member)
    tracks.vacant_update ((tracks.vacant area).put below item)
  holds offset found := by
    have apart := tracks.reserved.apart
    rw [found] at apart
    have own : cell.Apart (.ofFeatures offset) :=
      ((List.pairwise_append.mp apart).2.2 _ (List.mem_singleton_self _) cell member).symm
    have kept := ((areas area).get_put_of_apart own item).trans (tracks.holds offset found area)
    exact (Function.forall_update_iff areas fun other content =>
      content.get offset = records other).mpr ⟨kept, fun other _ => tracks.holds offset found other⟩
  empty := tracks.empty

/-- A record that is put into its place is the one that the area holds. -/
theorem store (tracks : Tracks shared cells areas records)
    (found : shared.featureOffset = some offset) (area : Nat) (record : FeatureRecord) :
    Tracks shared cells (Function.update areas area ((areas area).put offset record))
      (Function.update records area record) where
  reserved := tracks.reserved
  counted := tracks.counted
  vacant := by
    have listed : Cell.ofFeatures offset ∈
        shared.featureOffset.toList.map Cell.ofFeatures ++ cells := by
      rw [found]
      exact List.mem_cons_self
    have kept := (tracks.vacant area).put (tracks.reserved.within _ listed) record
    exact tracks.vacant_update kept
  holds place located := by
    obtain rfl : offset = place := Option.some.inj (found.symm.trans located)
    refine (Function.forall_update_iff areas fun other content =>
      content.get offset = Function.update records area record other).mpr ⟨?_, fun other others => ?_⟩
    · rw [Function.update_self, Area.get_put]
    · rw [Function.update_of_ne others]
      exact tracks.holds offset found other
  empty missing := by
    rw [found] at missing
    cases missing

end Tracks

namespace Cluster

variable {cluster : Cluster} {records : Nat → FeatureRecord}

/-- The areas of a cluster hold the given records. -/
abbrev Remembers (cluster : Cluster) (records : Nat → FeatureRecord) : Prop :=
  Tracks cluster.shared cluster.cells cluster.areas records

/-- A place for the feature record that initialization is given keeps all records. -/
theorem Remembers.reserve (remembers : cluster.Remembers records) {hart area : Nat} {cold : Bool}
    {shared : Shared} {offset : Offset FeatureRecord}
    (given : BootM.featureOffset cold (cluster.machine hart area) =
      .ok (.ok offset) { cluster.machine hart area with shared }) :
    Tracks shared cluster.cells cluster.areas records := by
  rcases BootM.of_featureOffset_ok given with ⟨-, rfl⟩ | ⟨missing, offsets, placed, rfl⟩
  · exact remembers
  · exact Tracks.reserve remembers missing placed

/-- Initialization leaves the record that it has detected, and otherwise what was there before. -/
theorem Remembers.init (remembers : cluster.Remembers records) (hart area : Nat)
    (platform : Platform) (cold : Bool) :
    (cluster.run (.init hart area platform cold)).Remembers
      (learn records (cluster.detection? (.init hart area platform cold))) := by
  have unchanged : Function.update cluster.areas area (cluster.machine hart area).area =
    cluster.areas := Function.update_eq_self area cluster.areas
  rw [Remembers, run, perform_snd, settle]
  dsimp only
  rcases BootM.featureOffset_cases cold (cluster.machine hart area) with
    ⟨error, refused⟩ | ⟨offset, shared, given, place⟩
  · rw [BootM.finalMachine_init_of_refused refused, detection?, refused, unchanged]
    exact remembers
  · obtain ⟨stored, quiet⟩ := BootM.memory_init_of_given platform given
    refine Tracks.congr_silent ?_ quiet
    have reserved := remembers.reserve given
    have same : (cluster.machine hart area).hart = cluster.harts hart := rfl
    rw [stored, detection?, given, same]
    cases HartM.detect (cluster.harts hart) with
    | ok record final => exact reserved.store place area record
    | error stop final =>
      dsimp only
      rw [unchanged]
      exact reserved

/-- Every permitted call keeps the records, but for the one that it detects. -/
theorem Remembers.run (remembers : cluster.Remembers records) {call : ClusterCall}
    (permitted : cluster.Permits call) :
    (cluster.run call).Remembers (learn records (cluster.detection? call)) := by
  cases call with
  | init hart area platform cold => exact remembers.init hart area platform cold
  | reinit hart area platform =>
    obtain ⟨kept, quiet⟩ := (BootM.Discreet.reinit platform).memory (cluster.machine hart area)
    have unchanged : Function.update cluster.areas area (cluster.machine hart area).area =
      cluster.areas := Function.update_eq_self area cluster.areas
    rw [Remembers, Cluster.run, perform_snd, settle]
    dsimp only
    rw [kept, unchanged]
    exact Tracks.congr_silent remembers quiet
  | alloc kind =>
    rw [Remembers, Cluster.run]
    split
    next placed => exact Tracks.alloc remembers placed
    next => exact remembers
  | put area cell item => exact Tracks.put remembers permitted area item

theorem runAll_cons (cluster : Cluster) (call : ClusterCall) (rest : List ClusterCall) :
    cluster.runAll (call :: rest) = (cluster.run call).runAll rest := rfl

/-- A run of permitted calls leaves the records that were detected last. -/
theorem Remembers.runAll (remembers : cluster.Remembers records) {calls : List ClusterCall}
    (permitted : cluster.PermitsAll calls) :
    (cluster.runAll calls).Remembers (cluster.detected records calls) := by
  induction calls generalizing cluster records with
  | nil => exact remembers
  | cons call rest ih => exact ih (remembers.run permitted.1) permitted.2

theorem silent_run_reinit (hart area : Nat) (platform : Platform) :
    (cluster.run (.reinit hart area platform)).shared.silent = cluster.shared.silent := by
  rw [run, perform_snd]
  exact ((BootM.Discreet.reinit platform).memory (cluster.machine hart area)).2

/-- A place that is reserved for the feature record stays. -/
theorem featureOffset_run {offset : Offset FeatureRecord}
    (reserved : cluster.shared.featureOffset = some offset) (call : ClusterCall) :
    (cluster.run call).shared.featureOffset = some offset := by
  cases call with
  | init hart area platform cold =>
    have found : (cluster.machine hart area).shared.featureOffset = some offset := reserved
    rw [run, perform_snd]
    exact (Shared.featureOffset_eq_of_silent
      (BootM.silent_init_of_reserved found platform cold)).trans reserved
  | reinit hart area platform =>
    exact (Shared.featureOffset_eq_of_silent (silent_run_reinit hart area platform)).trans reserved
  | alloc kind =>
    rw [run]
    split <;> exact reserved
  | put area cell item => exact reserved

theorem featureOffset_runAll {offset : Offset FeatureRecord}
    (reserved : cluster.shared.featureOffset = some offset) (calls : List ClusterCall) :
    (cluster.runAll calls).shared.featureOffset = some offset := by
  induction calls generalizing cluster with
  | nil => exact reserved
  | cons call rest ih => exact ih (featureOffset_run reserved call)

/-- A place for the feature record is reserved by a cold boot that finds room for it. -/
theorem featureOffset_run_of_none (missing : cluster.shared.featureOffset = none)
    (call : ClusterCall) : (cluster.run call).shared.featureOffset =
      if call.isCold then (cluster.shared.offsets.alloc? FeatureRecord).map Prod.fst else none := by
  cases call with
  | init hart area platform cold =>
    have absent : (cluster.machine hart area).shared.featureOffset = none := missing
    have given := BootM.featureOffset_of_none absent cold
    have same : (cluster.machine hart area).shared = cluster.shared := rfl
    rw [same] at given
    rw [run, perform_snd, settle, ClusterCall.isCold]
    dsimp only
    cases cold with
    | false =>
      rw [BootM.finalMachine_init_of_refused given]
      exact missing
    | true =>
      cases placed : cluster.shared.offsets.alloc? FeatureRecord with
      | none =>
        rw [placed] at given
        rw [BootM.finalMachine_init_of_refused given]
        exact missing
      | some place =>
        rw [placed] at given
        exact Shared.featureOffset_eq_of_silent (BootM.memory_init_of_given platform given).2
  | reinit hart area platform =>
    exact (Shared.featureOffset_eq_of_silent (silent_run_reinit hart area platform)).trans missing
  | alloc kind =>
    rw [run]
    split <;> exact missing
  | put area cell item => exact missing

/-- In every run from the pristine state, the feature record takes up one reservation among those of
others, made by the first cold boot that finds room for it. From then on the place stays, and every
area holds the record that was last detected for it, or an empty one. -/
theorem features_eq_detected (harts : Nat → Hart) (terminal : Terminal) (calls : List ClusterCall)
    (permitted : (pristine harts terminal).PermitsAll calls)
    (reached : (pristine harts terminal).runAll calls = cluster) :
    cluster.shared.offsets.allocated =
        cluster.cells.length + (if cluster.shared.featureOffset.isSome then 1 else 0) ∧
      (cluster.shared.featureOffset = none → ∀ call, (cluster.run call).shared.featureOffset =
        if call.isCold then (cluster.shared.offsets.alloc? FeatureRecord).map Prod.fst
        else none) ∧
      ∀ offset, cluster.shared.featureOffset = some offset →
        (∀ more, (cluster.runAll more).shared.featureOffset = some offset) ∧
        ∀ area, cluster.shared.features (cluster.areas area) =
          .ok ((pristine harts terminal).detected (fun _ => {}) calls area) := by
  have fresh : (pristine harts terminal).Remembers fun _ => {} := Tracks.pristine terminal
  have remembers := reached ▸ fresh.runAll permitted
  refine ⟨?_, featureOffset_run_of_none, fun offset found => ⟨featureOffset_runAll found, ?_⟩⟩
  · rw [remembers.counted]
    cases cluster.shared.featureOffset <;> rfl
  · intro area
    rw [Shared.features, found]
    exact congrArg Except.ok (remembers.holds offset found area)

/-- Initialization gives nothing to other parts of the firmware. -/
theorem cells_run_init (hart area : Nat) (platform : Platform) (cold : Bool) :
    (cluster.run (.init hart area platform cold)).cells = cluster.cells := by
  rw [run, perform_snd]
  rfl

end Cluster

/-- A small cell at the start of every area. -/
def Cell.sampleCounter : Cell := ⟨.uint16, ⟨0, by decide, by decide⟩⟩

/-- Another part of the firmware is given a cell before there is a place for the record, and uses it
while two harts boot. -/
def ClusterCall.sample : List ClusterCall :=
  [.alloc .uint16, .init 0 0 {} true, .put 0 Cell.sampleCounter (0xabcd : BitVec 16),
    .init 1 1 {} false, .reinit 0 0 {}]

namespace Cluster

theorem run_sampleCounter (harts : Nat → Hart) (terminal : Terminal) :
    (pristine harts terminal).run (.alloc .uint16) =
      { pristine harts terminal with
        shared := { terminal, offsets := ⟨2, 1, by decide⟩ }
        cells := [Cell.sampleCounter] } := by
  have placed : ({} : Allocator).alloc? (ItemKind.Carrier .uint16) =
      some (Cell.sampleCounter.offset, ⟨2, 1, by decide⟩) := by rfl
  have start : (pristine harts terminal).shared.offsets = {} := rfl
  rw [run, start, placed]
  rfl

theorem permitsAll_sample (harts : Nat → Hart) (terminal : Terminal) :
    (pristine harts terminal).PermitsAll ClusterCall.sample := by
  have member : Cell.sampleCounter ∈
      (((pristine harts terminal).run (.alloc .uint16)).run (.init 0 0 {} true)).cells := by
    rw [cells_run_init, run_sampleCounter]
    exact List.mem_singleton_self _
  exact ⟨trivial, trivial, member, trivial, trivial, trivial⟩

theorem exists_featureOffset_sample (harts : Nat → Hart) (terminal : Terminal) : ∃ offset,
    ((pristine harts terminal).runAll ClusterCall.sample).shared.featureOffset = some offset := by
  have room : (⟨2, 1, by decide⟩ : Allocator).alloc? FeatureRecord =
      some (⟨8, by decide, by decide⟩, ⟨40, 2, by decide⟩) := by rfl
  have reserved : (((pristine harts terminal).run (.alloc .uint16)).run
      (.init 0 0 {} true)).shared.featureOffset = some ⟨8, by decide, by decide⟩ := by
    rw [run_sampleCounter, featureOffset_run_of_none rfl, ClusterCall.isCold, if_pos rfl, room]
    rfl
  rw [ClusterCall.sample, runAll_cons, runAll_cons]
  exact ⟨_, featureOffset_runAll reserved _⟩

/-- Harts that are all alike end up with what was detected for their areas. -/
theorem features_eq_detected_supervised : ∃ cluster offset,
    (pristine (fun _ => Machine.supervised.hart) {}).PermitsAll ClusterCall.sample ∧
      (pristine (fun _ => Machine.supervised.hart) {}).runAll ClusterCall.sample = cluster ∧
      cluster.shared.featureOffset = some offset ∧
      ∀ area, cluster.shared.features (cluster.areas area) =
        .ok ((pristine (fun _ => Machine.supervised.hart) {}).detected (fun _ => {})
          ClusterCall.sample area) := by
  have permitted := permitsAll_sample (fun _ => Machine.supervised.hart) {}
  obtain ⟨offset, found⟩ := exists_featureOffset_sample (fun _ => Machine.supervised.hart) {}
  obtain ⟨-, -, records⟩ := features_eq_detected _ _ _ permitted rfl
  exact ⟨_, offset, permitted, rfl, found, (records offset found).2⟩

end Cluster

end HartBoot
