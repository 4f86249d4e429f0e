import Mathlib.Logic.Function.Basic
import HartBoot.Scratch.Storage
import HartBoot.Proofs.Reservation

/-! # Scratch memory as independent cells

To its users scratch memory is a table with one entry for every cell and every hart. An entry is
filled with zeros until it is written to, then holds what was written last, and does not care about
the others. Every use of scratch memory that keeps to offsets that were handed out follows this
table, however cells differ in size and alignment and in whatever order they are asked for and used.
-/

namespace HartBoot

/-- What every cell holds at every place, as seen by its users. -/
abbrev Contents := Place → (cell : Cell) → cell.kind.Carrier

namespace Contents

/-- Nothing has been written yet. -/
def zero : Contents := fun _ cell => cell.zero

/-- Replace what one cell holds at one place. -/
def set (contents : Contents) (place : Place) (cell : Cell) (item : cell.kind.Carrier) : Contents :=
  Function.update contents place (Function.update (contents place) cell item)

/-- What a call leaves in the cells. -/
def after (contents : Contents) : ScratchCall → Contents
  | .put place cell item => contents.set place cell item
  | .alloc _ | .get _ _ => contents

/-- What calls have written last to every cell at every place. -/
def lastWritten (calls : List ScratchCall) : Contents := calls.foldl after zero

variable {contents : Contents} {place : Place} {cell : Cell}

theorem set_self (item : cell.kind.Carrier) : contents.set place cell item place cell = item := by
  rw [set, Function.update_self, Function.update_self]

theorem set_of_ne {site : Place} {other : Cell} (different : site ≠ place ∨ other ≠ cell)
    (item : cell.kind.Carrier) : contents.set place cell item site other = contents site other := by
  rw [set]
  by_cases same : site = place
  · subst same
    rw [Function.update_self, Function.update_of_ne (different.resolve_left (· rfl))]
  · rw [Function.update_of_ne same]

end Contents

namespace Storage

/-- The bytes of the areas hold what users see in the cells. -/
structure Agrees (storage : Storage) (contents : Contents) : Prop where
  reserved : Reserved storage.offsets storage.cells
  vacant : ∀ {place area}, storage.area? place = some area → area.Vacant storage.offsets.next
  holds : ∀ {place area}, storage.area? place = some area →
    ∀ cell ∈ storage.cells, area.get cell.offset = contents place cell
  untouched : ∀ place, ∀ cell ∉ storage.cells, contents place cell = cell.zero

namespace Agrees

variable {storage : Storage} {contents : Contents}

theorem blank (harts : List Nat) : (Storage.blank harts).Agrees .zero where
  reserved := .fresh
  vacant found := area?_blank found ▸ Area.vacant_blank _
  holds _ _ member := absurd member List.not_mem_nil
  untouched _ _ _ := rfl

/-- A cell is handed out filled with zeros, and the earlier ones stay as they are. -/
theorem alloc (agrees : storage.Agrees contents) {kind : ItemKind} {offset : Offset kind.Carrier}
    {offsets : Allocator} (placed : storage.offsets.alloc? kind.Carrier = some (offset, offsets)) :
    Agrees { storage with offsets, cells := ⟨kind, offset⟩ :: storage.cells } contents where
  reserved := agrees.reserved.alloc placed
  vacant found := by
    obtain ⟨start, filled, -⟩ := Allocator.of_alloc? placed
    exact (agrees.vacant found).mono (by rw [filled]; omega)
  holds {place area} found cell member := by
    -- A cell without bytes can be handed out twice, so the new one may be among the earlier ones.
    by_cases earlier : cell ∈ storage.cells
    · exact agrees.holds found cell earlier
    · rw [agrees.untouched place cell earlier]
      obtain rfl := (List.mem_cons.mp member).resolve_right earlier
      exact (agrees.vacant found).get_eq _ (Allocator.of_alloc? placed).1
  untouched place cell other :=
    agrees.untouched place cell fun earlier => other (List.mem_cons_of_mem _ earlier)

/-- Writing to one cell at one place is seen there and nowhere else. -/
theorem put (agrees : storage.Agrees contents) {place : Place} {cell : Cell} {area : Area}
    (member : cell ∈ storage.cells) (present : storage.area? place = some area)
    (item : cell.kind.Carrier) :
    (storage.setArea place (area.put cell.offset item)).Agrees (contents.set place cell item) where
  reserved := agrees.reserved
  vacant {other written} found := by
    rw [area?_setArea, present] at found
    split at found
    · obtain rfl := Option.some.inj found
      exact (agrees.vacant present).put (agrees.reserved.within cell member) item
    · exact agrees.vacant found
  holds {other written} found chosen listed := by
    rw [area?_setArea, present] at found
    split at found
    next same =>
      obtain rfl := Option.some.inj found
      subst same
      by_cases sameCell : chosen = cell
      · subst sameCell
        rw [Contents.set_self, Area.get_put]
      · have apart := agrees.reserved.apart_of_ne member listed (Ne.symm sameCell)
        rw [Contents.set_of_ne (.inr sameCell), Area.get_put_of_apart _ apart]
        exact agrees.holds present chosen listed
    next elsewhere =>
      rw [Contents.set_of_ne (.inl elsewhere)]
      exact agrees.holds found chosen listed
  untouched other chosen unlisted := by
    have different : chosen ≠ cell := fun same => unlisted (same.symm ▸ member)
    rw [Contents.set_of_ne (.inr different)]
    exact agrees.untouched other chosen unlisted

/-- Every permitted call does to the bytes what its user sees it do to the cells. -/
theorem run (agrees : storage.Agrees contents) {call : ScratchCall}
    (permitted : storage.Permits call) : (storage.run call).Agrees (contents.after call) := by
  cases call with
  | alloc kind =>
    simp only [Storage.run, Contents.after]
    split
    next placed => exact agrees.alloc placed
    next => exact agrees
  | get place cell => exact agrees
  | put place cell item =>
    obtain ⟨member, inhabited⟩ := permitted
    obtain ⟨area, present⟩ := Option.isSome_iff_exists.mp inhabited
    simp only [Storage.run, Contents.after, present]
    exact agrees.put member present item

/-- Permitted calls in turn follow what their users see. -/
theorem runAll (agrees : storage.Agrees contents) {calls : List ScratchCall}
    (permitted : storage.PermitsAll calls) :
    (storage.runAll calls).Agrees (calls.foldl Contents.after contents) := by
  induction calls generalizing storage contents with
  | nil => exact agrees
  | cons call rest ih => exact ih (agrees.run permitted.1) permitted.2

end Agrees

variable {storage : Storage}

/-- A cell that is written to holds the item, and that is all that changes: no other cell holds
anything else than before, and no other area has changed. -/
theorem put_changes {allocator : Allocator} (reserved : Reserved allocator storage.cells)
    {place : Place} {cell : Cell} (permitted : storage.Permits (.get place cell))
    (item : cell.kind.Carrier) :
    (storage.run (.put place cell item)).item? place cell = some item ∧
      (∀ other ∈ storage.cells, other ≠ cell → ∀ site,
        (storage.run (.put place cell item)).item? site other = storage.item? site other) ∧
      ∀ elsewhere, elsewhere ≠ place →
        (storage.run (.put place cell item)).area? elsewhere = storage.area? elsewhere := by
  obtain ⟨member, inhabited⟩ := permitted
  obtain ⟨area, present⟩ := Option.isSome_iff_exists.mp inhabited
  have areas (site : Place) : (storage.run (.put place cell item)).area? site =
      if site = place then some (area.put cell.offset item) else storage.area? site := by
    simp only [run, present, area?_setArea, Option.map_some]
  refine ⟨?_, fun other listed different site => ?_, fun elsewhere different => ?_⟩
  · rw [item?, areas, if_pos rfl, Option.map_some, Area.get_put]
  · rw [item?, areas, item?]
    split
    next same =>
      have apart := reserved.apart_of_ne member listed different.symm
      rw [same, present, Option.map_some, Option.map_some, Area.get_put_of_apart _ apart]
    next => rfl
  · rw [areas, if_neg different]

/-- After any permitted use of fresh scratch memory, a cell holds what was written to it last in the
same area, or zeros. Writing to it once more changes what it holds there, and neither any other cell
nor any other area. -/
theorem holds_lastWritten (harts : List Nat) (calls : List ScratchCall)
    (permitted : (blank harts).PermitsAll calls) (reached : (blank harts).runAll calls = storage)
    (place : Place) (cell : Cell) (readable : storage.Permits (.get place cell)) :
    storage.item? place cell = some (Contents.lastWritten calls place cell) ∧
      ∀ item : cell.kind.Carrier,
        (storage.run (.put place cell item)).item? place cell = some item ∧
        (∀ other ∈ storage.cells, other ≠ cell → ∀ site,
          (storage.run (.put place cell item)).item? site other = storage.item? site other) ∧
        ∀ elsewhere, elsewhere ≠ place →
          (storage.run (.put place cell item)).area? elsewhere = storage.area? elsewhere := by
  have agrees := reached ▸ (Agrees.blank harts).runAll permitted
  refine ⟨?_, fun item => put_changes agrees.reserved readable item⟩
  obtain ⟨member, inhabited⟩ := readable
  obtain ⟨area, present⟩ := Option.isSome_iff_exists.mp inhabited
  rw [item?, present, Option.map_some, agrees.holds present cell member, Contents.lastWritten]

end Storage

/-- A record all of whose fields and most of whose feature bits are in use, named or not. -/
def FeatureRecord.sample : FeatureRecord where
  features := ⟨0xf0f0f0f0f0f0f0ff⟩
  pmpCount := 16
  pmpAddrBits := 54
  pmpGran := 4096
  counterCount := 29
  counterBits := 48

/-- The cell of a feature record that follows a single byte. -/
def Cell.sampleRecord : Cell := .ofFeatures ⟨8, by decide, by decide⟩

/-- Two harts of one arena and one of another use two cells, and ask in vain for a third. -/
def ScratchCall.sample : List ScratchCall :=
  let byte : Cell := ⟨.uint8, ⟨0, by decide, by decide⟩⟩
  [.alloc .uint8, .alloc .features, .alloc (.block 4096 0), .put ⟨0, 1⟩ byte (7 : BitVec 8),
    .put ⟨0, 1⟩ Cell.sampleRecord FeatureRecord.sample, .put ⟨1, 0⟩ byte (9 : BitVec 8),
    .put ⟨0, 0⟩ Cell.sampleRecord ({} : FeatureRecord), .get ⟨0, 1⟩ byte]

namespace Storage

/-- A feature record with bits that have no name, next to smaller items of other harts and after a
request that was too large, is found as it was written. -/
theorem holds_lastWritten_record :
    ∃ storage, (blank [2, 1]).PermitsAll ScratchCall.sample ∧
      (blank [2, 1]).runAll ScratchCall.sample = storage ∧
      storage.Permits (.get ⟨0, 1⟩ Cell.sampleRecord) ∧
      storage.item? ⟨0, 1⟩ Cell.sampleRecord = some FeatureRecord.sample := by
  have permitted : (blank [2, 1]).PermitsAll ScratchCall.sample := by decide +kernel
  have readable : ((blank [2, 1]).runAll ScratchCall.sample).Permits
    (.get ⟨0, 1⟩ Cell.sampleRecord) := by decide +kernel
  refine ⟨_, permitted, rfl, readable, ?_⟩
  rw [(holds_lastWritten [2, 1] ScratchCall.sample permitted rfl ⟨0, 1⟩ Cell.sampleRecord
    readable).1]
  rfl

end Storage

end HartBoot
