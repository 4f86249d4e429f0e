import HartBoot.Checked.Scratch
import HartBoot.Proofs.Checked
import HartBoot.Proofs.Reservation

/-! # Cells are packed

Whatever is done to scratch memory, the cells that were handed out lie one behind the other, and all
that is lost between them is what their alignment demands. The free part of every area starts where
the latest cell ends, so whether a request is granted, and where, is told by that end alone. A refused
request leaves everything as it is. A machine that keeps the free part and the number of cells in two
words comes to the same answers, as long as these cells can be counted.
-/

namespace HartBoot

/-- First byte past the latest cell, with the latest one first in the list. -/
def Cell.top (cells : List Cell) : Nat := (cells.head?.map Cell.limit).getD 0

namespace Storage

variable {storage : Storage} {kind : ItemKind}

theorem run_of_granted {offset : Offset kind.Carrier} {rest : Allocator}
    (granted : storage.offsets.alloc? kind.Carrier = some (offset, rest)) :
    storage.run (.alloc kind) =
      { storage with offsets := rest, cells := ⟨kind, offset⟩ :: storage.cells } := by
  simp only [run, granted]

theorem run_of_refused (refused : storage.offsets.alloc? kind.Carrier = none) :
    storage.run (.alloc kind) = storage := by
  simp only [run, refused]

/-- Only requests hand out cells. -/
theorem offsets_put (storage : Storage) (place : Place) (cell : Cell) (item : cell.kind.Carrier) :
    (storage.run (.put place cell item)).offsets = storage.offsets ∧
      (storage.run (.put place cell item)).cells = storage.cells := by
  simp only [run]
  split
  · exact ⟨rfl, rfl⟩
  · exact ⟨rfl, rfl⟩

end Storage

/-- The cells that were handed out make up what an allocator has reserved. -/
structure Packed (allocator : Allocator) (cells : List Cell) : Prop extends
    Reserved allocator cells where
  counted : allocator.allocated = cells.length
  filled : allocator.next = Cell.top cells

namespace Packed

variable {storage : Storage}

theorem run (packed : Packed storage.offsets storage.cells) (call : ScratchCall) :
    Packed (storage.run call).offsets (storage.run call).cells := by
  cases call with
  | alloc kind =>
    cases reserved : storage.offsets.alloc? kind.Carrier with
    | none =>
      rw [Storage.run_of_refused reserved]
      exact packed
    | some result =>
      obtain ⟨offset, rest⟩ := result
      obtain ⟨-, filled, counted⟩ := Allocator.of_alloc? reserved
      rw [Storage.run_of_granted reserved]
      refine ⟨packed.alloc reserved, ?_, filled⟩
      rw [counted, packed.counted, List.length_cons]
  | get place cell => exact packed
  | put place cell item =>
    obtain ⟨offsets, cells⟩ := storage.offsets_put place cell item
    rw [offsets, cells]
    exact packed

/-- The cells handed out by any calls in turn are packed. -/
theorem runAll (packed : Packed storage.offsets storage.cells) (calls : List ScratchCall) :
    Packed (storage.runAll calls).offsets (storage.runAll calls).cells := by
  induction calls generalizing storage with
  | nil => exact packed
  | cons call rest ih => exact ih (packed.run call)

theorem blank (harts : List Nat) : Packed (Storage.blank harts).offsets (Storage.blank harts).cells where
  toReserved := .fresh
  counted := rfl
  filled := rfl

end Packed

namespace Word

theorem toNat_ofNat {number : Nat} (small : number ≤ ones.toNat) :
    (BitVec.ofNat 64 number).toNat = number := by
  have limit : ones.toNat = 2 ^ 64 - 1 := rfl
  rw [BitVec.toNat_ofNat, Nat.mod_eq_of_lt (by omega)]

theorem sum?_ofNat {left right : Nat} (first : left ≤ ones.toNat) (second : right ≤ ones.toNat) :
    sum? (BitVec.ofNat 64 left) (BitVec.ofNat 64 right) =
      if left + right ≤ ones.toNat then some (BitVec.ofNat 64 (left + right)) else none := by
  rw [sum?, toNat_ofNat first, toNat_ofNat second, ← BitVec.ofNat_add]

theorem add?_ofNat {left right : Nat} (fits : left + right ≤ ones.toNat) :
    add? (BitVec.ofNat 64 left) (BitVec.ofNat 64 right) = .ok (BitVec.ofNat 64 (left + right)) := by
  rw [add?, toNat_ofNat (by omega), toNat_ofNat (by omega), if_pos fits, ← BitVec.ofNat_add]

theorem lowMask_eq_ofNat {exponent : Nat} (inside : exponent < 64) :
    lowMask exponent = BitVec.ofNat 64 (1 <<< exponent - 1) := by
  have bound : 2 ^ exponent < 2 ^ 64 := Nat.pow_lt_pow_right (by decide) inside
  apply BitVec.eq_of_toNat_eq
  rw [toNat_lowMask inside, BitVec.toNat_ofNat, Nat.one_shiftLeft, Nat.mod_eq_of_lt (by omega)]

theorem subtract?_ofNat {left right : Nat} (ordered : right ≤ left) (small : left ≤ ones.toNat) :
    subtract? (BitVec.ofNat 64 left) (BitVec.ofNat 64 right) =
      .ok (BitVec.ofNat 64 (left - right)) := by
  have fits : BitVec.ofNat 64 right ≤ BitVec.ofNat 64 left := by
    rw [BitVec.le_def, toNat_ofNat small, toNat_ofNat (ordered.trans small)]
    exact ordered
  have bounded : right < 2 ^ 64 := (ordered.trans small).trans_lt (by decide)
  rw [subtract?_of_le fits, BitVec.ofNat_sub_ofNat_of_le left right bounded ordered]

/-- One less than a power of two is a mask of ones. -/
theorem subtract?_one {exponent : Nat} (inside : exponent < 64) :
    subtract? (BitVec.ofNat 64 (1 <<< exponent)) 1 =
      .ok (BitVec.ofNat 64 (1 <<< exponent - 1)) := by
  have power : BitVec.ofNat 64 (1 <<< exponent) = (1 : Word) <<< exponent := rfl
  rw [power, subtract?_of_le (one_le_shiftLeft inside), ← lowMask_eq_ofNat inside]
  rfl

/-- Adding a mask of ones and clearing its bits again rounds up to a power of two. -/
theorem and_not_mask_eq_roundUp {number exponent : Nat} (inside : exponent < 64)
    (fits : number + (1 <<< exponent - 1) ≤ ones.toNat) :
    BitVec.ofNat 64 (number + (1 <<< exponent - 1)) &&& ~~~BitVec.ofNat 64 (1 <<< exponent - 1) =
      BitVec.ofNat 64 (roundUp number (1 <<< exponent)) := by
  have smaller : roundUp number (1 <<< exponent) ≤ number + (1 <<< exponent - 1) :=
    Nat.div_mul_le_self _ _
  apply BitVec.eq_of_toNat_eq
  rw [← lowMask_eq_ofNat inside, toNat_and_not_lowMask _ inside, toNat_ofNat fits,
    toNat_ofNat (by omega), roundUp, Nat.one_shiftLeft]

end Word

namespace Allocator

variable (allocator : Allocator)

/-- The words of an allocator lead to the same place, unless its alignment is out of the question. -/
theorem place?_bump {size exponent : Nat} (small : size ≤ Word.ones.toNat) (inside : exponent < 64)
    (alignable : 1 <<< exponent ≤ Area.alignment) :
    allocator.bump.place? (BitVec.ofNat 64 size) (BitVec.ofNat 64 (1 <<< exponent - 1)) =
      (allocator.place? size (1 <<< exponent)).map fun result =>
        (BitVec.ofNat 64 result.1, result.2.bump.next) := by
  have limit : Word.ones.toNat = 2 ^ 64 - 1 := rfl
  have area : Area.size = 4096 := rfl
  have unit : Area.alignment = 16 := rfl
  have bound := allocator.next_le
  have positive : 0 < 1 <<< exponent := by
    rw [Nat.one_shiftLeft]
    exact Nat.two_pow_pos exponent
  have start := roundUp_lt allocator.next positive
  rw [place?, if_neg (Nat.not_lt.mpr alignable)]
  rw [Bump.place?, bump, Word.sum?_ofNat (by omega) (by omega), if_pos (by omega)]
  simp only [bind, Option.bind_some]
  rw [Word.and_not_mask_eq_roundUp inside (by omega), Word.sum?_ofNat (by omega) small]
  by_cases fits : roundUp allocator.next (1 <<< exponent) + size ≤ Area.size
  · rw [dif_pos fits, if_pos (by omega), Option.bind_some, Word.toNat_ofNat (by omega),
      if_neg (Nat.not_lt.mpr fits)]
    rfl
  · -- a bound that does not fit into a word is refused as well, for another reason
    rw [dif_neg fits]
    split
    next counted =>
      rw [Option.bind_some, Word.toNat_ofNat counted, if_pos (Nat.not_le.mp fits)]
      rfl
    next => rfl

end Allocator

namespace Storage

variable {storage : Storage} {call : ScratchCall}

theorem allocated_run_le (storage : Storage) (call : ScratchCall) :
    (storage.run call).offsets.allocated ≤ storage.offsets.allocated + 1 := by
  cases call with
  | alloc kind =>
    cases reserved : storage.offsets.alloc? kind.Carrier with
    | none =>
      rw [run_of_refused reserved]
      exact Nat.le_succ _
    | some result =>
      rw [run_of_granted reserved]
      exact (Allocator.of_alloc? reserved).2.2.le
  | get place cell => exact Nat.le_succ _
  | put place cell item =>
    rw [(storage.offsets_put place cell item).1]
    exact Nat.le_succ _

/-- There are no more cells than calls. -/
theorem allocated_runAll_le (storage : Storage) (calls : List ScratchCall) :
    (storage.runAll calls).offsets.allocated ≤ storage.offsets.allocated + calls.length := by
  induction calls generalizing storage with
  | nil => exact Nat.le_refl _
  | cons call rest ih =>
    have one_more := storage.allocated_run_le call
    have others := ih (storage.run call)
    rw [List.length_cons]
    exact others.trans (by omega)

/-- A machine that can count the cells answers a request like the allocator that it keeps. -/
theorem alloc_bump {kind : ItemKind} (addressable : kind.Addressable)
    (counted : storage.offsets.allocated < Word.ones.toNat) :
    storage.offsets.bump.alloc (BitVec.ofNat 64 (Item.size kind.Carrier))
        (BitVec.ofNat 64 (Item.align kind.Carrier)) =
      .ok ((storage.offsets.alloc? kind.Carrier).map fun result =>
          BitVec.ofNat 64 result.1.position,
        (storage.run (.alloc kind)).offsets.bump) := by
  obtain ⟨small, exponent, inside, power⟩ := addressable
  have bounded : 1 <<< exponent ≤ Word.ones.toNat := by
    have bound : 2 ^ exponent < 2 ^ 64 := Nat.pow_lt_pow_right (by decide) inside
    have limit : Word.ones.toNat = 2 ^ 64 - 1 := rfl
    rw [Nat.one_shiftLeft]
    omega
  have placed := storage.offsets.alloc?_map_position kind.Carrier
  rw [power] at placed ⊢
  rw [Bump.alloc, Word.toNat_ofNat bounded]
  by_cases alignable : 1 <<< exponent ≤ Area.alignment
  · rw [if_neg (Nat.not_lt.mpr alignable), Word.subtract?_one inside]
    simp only [bind, Except.bind, Allocator.place?_bump _ small inside alignable, ← placed]
    cases reserved : storage.offsets.alloc? kind.Carrier with
    | none =>
      rw [run_of_refused reserved]
      rfl
    | some result =>
      have one_more : Word.add? storage.offsets.bump.allocated 1 = .ok result.2.bump.allocated := by
        rw [Allocator.bump, Allocator.bump, (Allocator.of_alloc? reserved).2.2]
        exact Word.add?_ofNat counted
      rw [run_of_granted reserved]
      simp only [Option.map_some, one_more]
      rfl
  · have refused : storage.offsets.alloc? kind.Carrier = none := by
      rw [← Option.map_eq_none_iff, placed, Allocator.place?, if_pos (Nat.not_le.mp alignable)]
    rw [if_pos (Nat.not_le.mp alignable), refused, run_of_refused refused]
    rfl

/-- A call makes of the words what it makes of the allocator that they keep. -/
theorem run_bump (addressable : call.Addressable)
    (counted : storage.offsets.allocated < Word.ones.toNat) :
    storage.offsets.bump.run call = .ok (storage.run call).offsets.bump := by
  cases call with
  | alloc kind =>
    rw [Bump.run, alloc_bump addressable counted]
    rfl
  | get place cell => rfl
  | put place cell item =>
    rw [(storage.offsets_put place cell item).1]
    rfl

theorem runAll_bump {calls : List ScratchCall} (addressable : ∀ call ∈ calls, call.Addressable)
    (counted : storage.offsets.allocated + calls.length ≤ Word.ones.toNat) :
    storage.offsets.bump.runAll calls = .ok (storage.runAll calls).offsets.bump := by
  induction calls generalizing storage with
  | nil => rfl
  | cons call rest ih =>
    have one_more := storage.allocated_run_le call
    rw [List.length_cons] at counted
    rw [Bump.runAll, List.foldlM_cons, run_bump (addressable call List.mem_cons_self) (by omega)]
    apply ih
    · intro other later
      exact addressable other (List.mem_cons_of_mem call later)
    · omega

/-- After any calls on fresh scratch memory, a request is granted exactly if its alignment is at most
that of an area and its item fits behind the latest cell that was handed out, rounded up to this
alignment. It is granted a place that is aligned, inside the area and behind all earlier cells, with
less than one unit of its alignment lost in between; so no two cells share a byte. A refused request
changes nothing. The cells that were handed out are counted, and what remains is the area less the end
of the latest one. A machine does the same in words, and no sum or difference but the count of cells
can overflow there. -/
theorem alloc_packs (harts : List Nat) (calls : List ScratchCall) (kind : ItemKind) :
    let storage := (blank harts).runAll calls
    let after := storage.run (.alloc kind)
    let answer := storage.offsets.alloc? kind.Carrier
    let size := Item.size kind.Carrier
    let align := Item.align kind.Carrier
    let free := Cell.top storage.cells
    (answer.isSome = true ↔ align ≤ 16 ∧ roundUp free align + size ≤ 0x1000) ∧
    (∀ offset rest, answer = some (offset, rest) →
      (align ∣ offset.position ∧ offset.position + size ≤ 0x1000) ∧
      (∀ cell ∈ storage.cells, cell.limit ≤ offset.position) ∧
      offset.position < free + align ∧
      after.cells = ⟨kind, offset⟩ :: storage.cells) ∧
    (answer = none → after = storage) ∧
    storage.cells.Pairwise Cell.Apart ∧
    storage.offsets.allocated = storage.cells.length ∧
    (storage.offsets.next = free ∧ free ≤ 0x1000 ∧ storage.offsets.remaining = 0x1000 - free) ∧
    ((∀ call ∈ calls, call.Addressable) → calls.length < Word.ones.toNat →
      Bump.runAll {} calls = .ok storage.offsets.bump ∧
      storage.offsets.bump.remaining? = .ok (BitVec.ofNat 64 (0x1000 - free)) ∧
      (kind.Addressable →
        storage.offsets.bump.alloc (BitVec.ofNat 64 size) (BitVec.ofNat 64 align) =
          .ok (answer.map fun result => BitVec.ofNat 64 result.1.position, after.offsets.bump))) := by
  intro storage after answer size align free
  have packed : Packed storage.offsets storage.cells := (Packed.blank harts).runAll calls
  have top : storage.offsets.next = free := packed.filled
  have inside : free ≤ 0x1000 := top ▸ storage.offsets.next_le
  refine ⟨?_, ?_, ?_, packed.apart, packed.counted, ⟨top, inside, ?_⟩, ?_⟩
  · rw [← top]
    exact storage.offsets.isSome_alloc?_iff kind.Carrier
  · intro offset rest granted
    obtain ⟨-, start, -⟩ := Allocator.place?_eq_some_iff.mp (Allocator.alloc?_eq_some_iff.mp granted)
    refine ⟨⟨offset.aligned, offset.inside⟩, ?_, ?_, ?_⟩
    · intro cell member
      exact (packed.within cell member).trans (Allocator.of_alloc? granted).1
    · rw [start, ← top]
      exact roundUp_lt _ Item.align_pos
    · exact congrArg cells (run_of_granted granted)
  · exact run_of_refused
  · rw [Allocator.remaining, top]
    rfl
  · intro addressable counted
    have fewer : storage.offsets.allocated ≤ 0 + calls.length :=
      (blank harts).allocated_runAll_le calls
    refine ⟨?_, ?_, ?_⟩
    · have bounded : (blank harts).offsets.allocated + calls.length ≤ Word.ones.toNat :=
        (Nat.zero_add calls.length).trans_le counted.le
      exact runAll_bump addressable bounded
    · rw [Bump.remaining?, Allocator.bump, top]
      exact Word.subtract?_ofNat inside (by decide)
    · intro sized
      exact alloc_bump sized (by omega)

/-- Of four requests one is for more than there is and one for too large an alignment. They are refused,
and a further request is granted a place behind the feature record. -/
theorem alloc_packs_refusing :
    let calls : List ScratchCall :=
      [.alloc .uint8, .alloc .features, .alloc (.block 4096 0), .alloc (.block 0 31)]
    let storage := (blank []).runAll calls
    ((∀ call ∈ calls, call.Addressable) ∧ calls.length < Word.ones.toNat ∧
      ItemKind.uint16.Addressable) ∧
    (storage.offsets.alloc? ItemKind.uint16.Carrier).isSome = true ∧
    storage.cells.Pairwise Cell.Apart ∧
    storage.offsets.next = 40 ∧ storage.offsets.remaining = 4056 ∧
    Bump.runAll {} calls = .ok { next := 40, allocated := 2 } ∧
    storage.offsets.bump.alloc 2 2 = .ok (some 40, { next := 42, allocated := 3 }) := by
  intro calls storage
  have sized (kind : ItemKind) (exponent : Nat) (small : Item.size kind.Carrier ≤ Word.ones.toNat)
      (inside : exponent < Word.width) (unit : Item.align kind.Carrier = 1 <<< exponent) :
      (ScratchCall.alloc kind).Addressable := ⟨small, exponent, inside, unit⟩
  have addressable : ∀ call ∈ calls, call.Addressable := by
    simp only [calls, List.forall_mem_cons]
    refine ⟨sized _ 0 ?_ ?_ rfl, sized _ 3 ?_ ?_ rfl, sized _ 0 ?_ ?_ rfl, sized _ 5 ?_ ?_ rfl,
      fun _ none => absurd none List.not_mem_nil⟩
    all_goals decide
  have counted : calls.length < Word.ones.toNat := by decide
  have short : ItemKind.uint16.Addressable := sized .uint16 1 (by decide) (by decide) rfl
  have free : Cell.top storage.cells = 40 := by decide +kernel
  obtain ⟨granted, -, -, apart, -, ⟨filled, -, left⟩, words⟩ :=
    alloc_packs [] calls .uint16
  obtain ⟨ran, -, further⟩ := words addressable counted
  refine ⟨⟨addressable, counted, short⟩, ?_, apart, filled.trans free, ?_, ?_, ?_⟩
  · apply granted.mpr
    rw [free]
    decide
  · rw [left, free]
  · rw [ran]
    rfl
  · exact (further short).trans (by decide +kernel)

end Storage

end HartBoot
