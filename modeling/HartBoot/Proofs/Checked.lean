import HartBoot.Checked
import HartBoot.Proofs.Booting
import HartBoot.Proofs.Encoding

/-! # Nothing overflows

The checked forms of detection and of protection do what the plain ones do, and stop where these
stop. Detection can overflow in one place, which the plain form checks as well. Otherwise, every
shift is by less than the width of a word, no difference is taken of a smaller number, sums stay
small because there are 64 entries, and every number names a register. Reports are the only sums
that grow with a domain: they fit as long as its regions can be counted.
-/

namespace HartBoot

namespace Word

variable {left right : Nat}

theorem addCounts?_of_le (fits : left + right ≤ ones.toNat) :
    addCounts? left right = .ok (left + right) := if_pos fits

theorem addNarrow?_of_le (fits : left + right ≤ 0xffffffff) :
    addNarrow? left right = .ok (left + right) := if_pos fits

theorem subtractCounts?_of_le (fits : right ≤ left) :
    subtractCounts? left right = .ok (left - right) := if_pos fits

theorem subtract?_of_le {left right : Word} (fits : right ≤ left) :
    subtract? left right = .ok (left - right) := if_pos fits

theorem shiftLeft?_of_lt (word : Word) {amount : Nat} (inside : amount < width) :
    shiftLeft? word amount = .ok (word <<< amount) := if_pos inside

theorem shiftRight?_of_lt (word : Word) {amount : Nat} (inside : amount < width) :
    shiftRight? word amount = .ok (word >>> amount) := if_pos inside

theorem one_le_shiftLeft {count : Nat} (inside : count < 64) : 1 ≤ (1 : Word) <<< count := by
  rw [BitVec.le_def, toNat_shiftLeft_one inside]
  exact Nat.one_le_two_pow

/-- A bit and all bits below it are as many ones at the bottom. -/
theorem shiftLeft_or_lowMask {count : Nat} (inside : count < 64) :
    (1 : Word) <<< count ||| lowMask count = ones >>> (63 - count) := by
  apply BitVec.eq_of_getLsbD_eq
  intro position small
  rw [BitVec.getLsbD_or, getLsbD_lowMask inside, BitVec.getLsbD_shiftLeft,
    BitVec.getLsbD_ushiftRight, ones, BitVec.getLsbD_allOnes]
  by_cases below : position < count
  · have reached : 63 - count + position < 64 := by omega
    simp [below, reached]
  · have reached : 63 - count + position < 64 ↔ position - count = 0 := by omega
    simp [below, small, reached]

theorem bitLength?_eq (word : Word) : bitLength? word = .ok (bitLength word) := by
  have bound : word.clz ≤ 64 := BitVec.clz_le
  exact subtractCounts?_of_le (BitVec.le_def.mp bound)

end Word

namespace Region

theorem limit?_eq (region : Region) : region.limit? = .ok region.limit := by
  unfold limit? limit
  cases region.extent with
  | napot order =>
    dsimp only
    split
    · rfl
    next small =>
      rw [Word.shiftLeft?_of_lt _ (not_le.mp small)]
      rfl
  | tor size => rfl

theorem order?_eq (region : Region) : region.order? = .ok region.order := by
  unfold order? order
  cases region.extent with
  | napot order => rfl
  | tor size => exact Word.bitLength?_eq size

end Region

namespace Protection

/-- The highest bit of an address and the bits below are all bits of an address. -/
theorem addressMax?_eq (bits : Nat) : addressMax? bits = .ok (addressMax bits) := by
  unfold addressMax? addressMax
  split
  next none =>
    subst none
    rfl
  next some =>
    have positive : 1 ≤ min bits Word.width := le_min (Nat.one_le_iff_ne_zero.mpr some) (by decide)
    have inside : min bits Word.width - 1 < Word.width :=
      (Nat.sub_lt positive Nat.one_pos).trans_le (min_le_right _ _)
    rw [Word.subtractCounts?_of_le positive]
    simp only [bind, Except.bind, pure, Except.pure, Word.shiftLeft?_of_lt _ inside,
      Word.subtract?_of_le (Word.one_le_shiftLeft inside)]
    have ones := Word.shiftLeft_or_lowMask inside
    have rest : 63 - (min bits Word.width - 1) = Word.width - bits := by
      unfold Word.width
      omega
    rw [rest] at ones
    exact congrArg Except.ok ones

theorem one_le_granule (record : FeatureRecord) : 1 ≤ granule record := by
  rw [BitVec.le_def, toNat_granule]
  exact le_max_of_le_left (by decide)

theorem alignDown?_eq (address : Word) (record : FeatureRecord) :
    alignDown? address (granule record) = .ok (alignDown address (granule record)) := by
  rw [alignDown?, Word.subtract?_of_le (one_le_granule record)]
  rfl

theorem ofRegion?_eq (region : Region) (record : FeatureRecord) :
    ofRegion? region record = .ok (ofRegion region record) := by
  unfold ofRegion? ofRegion
  cases region.extent with
  | napot order =>
    dsimp only
    split
    · rfl
    · rw [Word.shiftRight?_of_lt _ (by decide), addressMax?_eq]
      simp only [bind, Except.bind]
      split <;> rfl
  | tor size =>
    simp only [alignDown?_eq, Region.limit?_eq, bind, Except.bind]
    rfl

/-- The size of a block that is larger than a word and smaller than all memory fits a word. -/
theorem blockAddress?_eq (base : Word) {order : Nat} (least : minOrder ≤ order)
    (most : order ≤ maxOrder) : blockAddress? base order = .ok (blockAddress base order) := by
  unfold blockAddress? blockAddress
  split
  · rfl
  next =>
    split
    · rfl
    next whole =>
      have inside : order - addressShift < Word.width := by
        unfold maxOrder at most whole
        unfold minOrder at least
        unfold addressShift Word.width
        omega
      have smaller : Word.subtractCounts? order addressShift = .ok (order - addressShift) :=
        Word.subtractCounts?_of_le least
      simp only [smaller, bind, Except.bind, Word.shiftLeft?_of_lt _ inside,
        Word.subtract?_of_le (Word.one_le_shiftLeft inside)]
      rfl

end Protection

namespace HartM

theorem checked_ok {α : Type} (result : α) : checked (.ok result) = pure result := rfl

theorem indexed_pmpaddr? {entry : Nat} (inRange : entry < 64) :
    indexed (Csr.pmpaddr? entry) = pure (Csr.pmpaddr ⟨entry, inRange⟩) := by
  have named : Csr.pmpaddr? entry = .ok (Csr.pmpaddr ⟨entry, inRange⟩) := dif_pos inRange
  rw [named]
  rfl

theorem indexed_pmpcfg? {index : Nat} (inRange : index < 16) :
    indexed (Csr.pmpcfg? index) = pure (Csr.pmpcfg ⟨index, inRange⟩) := by
  have named : Csr.pmpcfg? index = .ok (Csr.pmpcfg ⟨index, inRange⟩) := dif_pos inRange
  rw [named]
  rfl

theorem applyChecked_eq {entry : Nat} (inRange : entry < 64) (config : PmpFlags) (address : Word) :
    applyChecked entry config address =
      PmpSetting.apply { entry := ⟨entry, inRange⟩, config, address } := by
  have inside : entry % 8 * 8 < Word.width := by
    unfold Word.width
    omega
  rw [applyChecked, indexed_pmpcfg? (by omega), indexed_pmpaddr? inRange]
  simp only [Word.shiftLeft?_of_lt _ inside, checked_ok, pure_bind]
  rfl

theorem setBlockChecked_eq (entry : Nat) (flags : PmpFlags) (base : Word) (order : Nat) :
    setBlockChecked entry flags base order = setBlock entry flags base order := by
  unfold setBlockChecked setBlock Protection.encodeBlock?
  by_cases inRange : entry < 64
  · rw [if_neg (not_le.mpr inRange), dif_pos inRange]
    by_cases sized : Protection.minOrder ≤ order ∧ order ≤ Protection.maxOrder
    · have ordered : ¬(order < Protection.minOrder ∨ Protection.maxOrder < order) := by omega
      rw [if_neg ordered, if_pos sized, Protection.blockAddress?_eq base sized.1 sized.2]
      simp only [checked_ok, pure_bind, applyChecked_eq inRange, applySettings, List.forM,
        bind_assoc]
    · have unordered : order < Protection.minOrder ∨ Protection.maxOrder < order := by omega
      rw [if_pos unordered, if_neg sized]
      rfl
  · rw [if_pos (not_lt.mp inRange), dif_neg inRange]
    rfl

theorem setRangeChecked_eq (entry : Nat) (flags : PmpFlags) (start limit : Word) :
    setRangeChecked entry flags start limit = setRange entry flags start limit := by
  unfold setRangeChecked setRange Protection.encodeRange?
  by_cases counted : entry + 1 ≤ Word.ones.toNat
  · simp only [Word.addCounts?_of_le counted, checked_ok, pure_bind]
    by_cases inRange : entry + 1 < 64
    · have shifted : Protection.addressShift < Word.width := by decide
      rw [if_neg (not_le.mpr inRange), dif_pos inRange]
      simp only [Word.shiftRight?_of_lt _ shifted, checked_ok, pure_bind, applyChecked_eq inRange,
        applyChecked_eq (Nat.lt_of_succ_lt inRange), applySettings, List.forM,
        bind_assoc]
    · rw [if_pos (not_lt.mp inRange), dif_neg inRange]
      rfl
  · have overflows : Word.addCounts? entry 1 = .error .add := if_neg counted
    rw [overflows]
    rfl

theorem protectChecked_eq (protection : Protection) (entry : Nat) :
    protectChecked protection entry = protect protection entry := by
  cases protection with
  | napot base order flags => exact setBlockChecked_eq entry flags base order
  | tor start limit flags => exact setRangeChecked_eq entry flags start limit

/-- Two actions are the same when they go on in the same way from every result. -/
theorem bind_congr_of_ok {α β : Type} {action : HartM α} {next other : α → HartM β}
    (same : ∀ hart result final, action hart = .ok result final → next result = other result) :
    action >>= next = action >>= other := by
  funext hart
  simp only [Bind.bind, EStateM.bind]
  cases ran : action hart with
  | ok result final => simp only [same hart result final ran]
  | error stop final => rfl

/-- A run is not longer than the list that it is counted in. -/
theorem le_length_of_leadingRun {test : Csr → HartM Bool} {csrs : List Csr} {hart final : Hart}
    {count : Nat} (ran : leadingRun test csrs hart = .ok count final) : count ≤ csrs.length := by
  induction csrs generalizing hart final count with
  | nil =>
    obtain ⟨rfl, -⟩ := EStateM.Result.ok.inj ran
    exact Nat.zero_le _
  | cons csr rest ih =>
    obtain ⟨passed, paused, -, ran⟩ := bind_eq_ok_iff.mp ran
    cases passed with
    | false =>
      obtain ⟨rfl, -⟩ := EStateM.Result.ok.inj ran
      exact Nat.zero_le _
    | true =>
      rw [if_pos rfl] at ran
      obtain ⟨shorter, ended, counted, ran⟩ := bind_eq_ok_iff.mp ran
      obtain ⟨rfl, -⟩ := EStateM.Result.ok.inj ran
      exact Nat.succ_le_succ (ih counted)

/-- Counting upwards over numbers is counting a run of the registers that they name. -/
theorem countRun_eq {register? : Nat → Except Csr.IndexFault Csr} (test : Csr → HartM Bool)
    {indices : List Nat} {csrs : List Csr} (named : indices.map register? = csrs.map .ok)
    (count : Nat) (fits : count + indices.length ≤ Word.ones.toNat) :
    countRun register? test count indices = do return count + (← leadingRun test csrs) := by
  induction csrs generalizing indices count with
  | nil =>
    obtain rfl := List.map_eq_nil_iff.mp named
    rfl
  | cons csr rest ih =>
    obtain ⟨index, others, rfl, first, later⟩ := List.map_eq_cons_iff.mp named
    have next : count + 1 + others.length ≤ Word.ones.toNat := by
      rw [List.length_cons] at fits
      omega
    have more : Word.addCounts? count 1 = .ok (count + 1) := Word.addCounts?_of_le (by omega)
    simp only [countRun, leadingRun, first, indexed, more, checked_ok, pure_bind, bind_assoc]
    congr 1
    funext passed
    cases passed with
    | false => rfl
    | true =>
      simp only [if_true, ih later (count + 1) next, bind_assoc, pure_bind, Nat.add_assoc, Nat.add_comm 1]

theorem detectPmpChecked_eq (record : FeatureRecord) :
    detectPmpChecked record = detectPmp record := by
  have named : (List.range 64).map Csr.pmpaddr? =
      ((List.finRange 64).map Csr.pmpaddr).map .ok := by decide
  unfold detectPmpChecked detectPmp
  congr 1
  funext pattern
  split
  · rfl
  next present =>
    have narrow := (Word.trailingZeros_lt_width_iff pattern).mpr present
    unfold Word.width at narrow
    rw [Word.addNarrow?_of_le (by omega), Word.bitLength?_eq, countRun_eq _ named 0 (by decide)]
    simp only [checked_ok, pure_bind, Nat.zero_add, bind_pure]

theorem counterWidth?_eq (found : Option Word) :
    counterWidth? found = .ok (found.elim 0 Word.bitLength) := by
  cases found with
  | none => rfl
  | some kept =>
    rw [counterWidth?]
    split
    next empty =>
      subst empty
      decide
    next => exact Word.bitLength?_eq kept

theorem detectCountersChecked_eq (record : FeatureRecord) :
    detectCountersChecked record = detectCounters record := by
  have named : (List.range' (Csr.firstCounter + 1) (Csr.lastCounter - Csr.firstCounter)).map
      Csr.counter? = ((List.finRange 28).map fun index : Fin 28 =>
        Csr.machineCounter ⟨index + 4, by omega⟩).map .ok := by decide
  unfold detectCountersChecked detectCounters
  congr 1
  funext present
  split
  · have counted := countRun_eq (holds · 1) named 0 (by decide)
    simp only [counted, counterWidth?_eq, checked_ok, pure_bind, Nat.zero_add, bind_pure]
    congr 1
    funext found
    apply bind_congr_of_ok
    intro hart others final ran
    have few := le_length_of_leadingRun ran
    rw [List.length_map, List.length_finRange] at few
    rw [Word.addNarrow?_of_le (by omega), checked_ok, pure_bind]
  · rfl

theorem detectChecked_eq : detectChecked = detect := by
  rw [detectChecked, detectPmpChecked_eq]
  simp only [detectCountersChecked_eq, detect]

end HartM

namespace PmpReport

variable {report : PmpReport} {regions : Nat}

theorem skip?_eq (fits : report.skipped + regions ≤ Word.ones.toNat) :
    report.skip? regions = .ok { report with skipped := report.skipped + regions } := by
  rw [skip?, Word.addCounts?_of_le fits]
  rfl

theorem place?_eq {entries : Nat} (few : report.slots + entries ≤ Word.ones.toNat)
    (fits : report.configured + 1 ≤ Word.ones.toNat) : report.place? entries =
      .ok { report with slots := report.slots + entries, configured := report.configured + 1 } := by
  rw [place?, Word.addCounts?_of_le few, Word.addCounts?_of_le fits]
  rfl

end PmpReport

/-- The last entry of a protection that has an encoding is one of the 64. -/
theorem Protection.le_of_encode? {protection : Protection} {entry : Nat}
    {settings : List PmpSetting} (encoded : protection.encode? entry = .ok settings) :
    entry + protection.slots ≤ 64 := by
  cases protection with
  | napot base order flags =>
    rw [encode?, encodeBlock?] at encoded
    split at encoded
    next inRange => exact inRange
    next => cases encoded
  | tor start limit flags =>
    rw [encode?, encodeRange?] at encoded
    split at encoded
    next inRange => exact inRange
    next => cases encoded

/-- Where entries can be counted, programming a protection is applying its settings. -/
theorem HartM.protect_eq (protection : Protection) {entry : Nat}
    (counted : entry + 1 ≤ Word.ones.toNat) :
    protect protection entry = applySettings (protection.encode? entry) := by
  cases protection with
  | napot base order flags => rfl
  | tor start limit flags =>
    rw [protect, setRange, Word.addCounts?_of_le counted]
    rfl

namespace BootM

theorem checked_ok {α : Type} (result : α) : checked (.ok result) = pure result := rfl

/-- Programming a protection is applying its settings, unless it has none. -/
theorem onHart_protect (protection : Protection) {entry : Nat} (inRange : entry ≤ 64) :
    onHart (HartM.protect protection entry) =
      match protection.encode? entry with
      | .ok settings => onHart (settings.forM PmpSetting.apply) >>= fun _ => pure (.ok ())
      | .error error => pure (.error error) := by
  rw [HartM.protect_eq protection (Nat.le_trans (Nat.succ_le_succ inRange) (by decide))]
  cases protection.encode? entry with
  | error error => rfl
  | ok settings =>
    funext machine
    simp only [HartM.applySettings, onHart, Bind.bind, EStateM.bind]
    cases settings.forM PmpSetting.apply machine.hart <;> rfl

variable {record : FeatureRecord} {domain : String} {total : Nat}

/-- Regions that are taken one at a time get the verdicts of the plan, and the report on them. -/
theorem configureFrom_eq (regions : List Region) {index : Nat} {report : PmpReport}
    (length : index + regions.length = total) (fits : total ≤ Word.ones.toNat)
    (slots : report.slots ≤ 64) (counted : report.configured + report.skipped = index) :
    configureFrom record domain total index regions report = do
      (Verdict.ofRegions record report.slots regions).forM (carryOut domain)
      return (Verdict.ofRegions record report.slots regions).foldl PmpReport.add report := by
  induction regions generalizing index report with
  | nil => rfl
  | cons region rest ih =>
    rw [List.length_cons] at length
    have remaining : Word.subtractCounts? total index = .ok (rest.length + 1) := by
      rw [Word.subtractCounts?_of_le (by omega)]
      congr 1
      omega
    have skipped : report.skip? 1 = .ok { report with skipped := report.skipped + 1 } :=
      PmpReport.skip?_eq (by omega)
    have later := @ih (index + 1) { report with skipped := report.skipped + 1 } (by omega) slots
      (by dsimp only; omega)
    rw [configureFrom, Verdict.ofRegions]
    dsimp only
    split
    next full =>
      have rest : report.skip? (rest.length + 1) =
          .ok { report with skipped := report.skipped + (rest.length + 1) } :=
        PmpReport.skip?_eq (by omega)
      simp only [remaining, checked_ok, pure_bind, rest, List.forM, carryOut, bind_assoc,
        List.foldl_cons, List.foldl_nil, PmpReport.add]
    next free =>
      rw [Protection.ofRegion?_eq, checked_ok, pure_bind]
      cases Protection.ofRegion region record with
      | error error =>
        simp only [Region.order?_eq, checked_ok, pure_bind, skipped, later, List.forM, carryOut,
          List.foldl_cons, PmpReport.add, bind_assoc]
      | ok protection =>
        have few : protection.slots ≤ 2 := by cases protection <;> simp [Protection.slots]
        have wide : Word.ones.toNat = 18446744073709551615 := by decide
        have needed : Word.addCounts? report.slots protection.slots =
            .ok (report.slots + protection.slots) := Word.addCounts?_of_le (by omega)
        dsimp only
        rw [needed, checked_ok, pure_bind]
        split
        · simp only [Region.limit?_eq, checked_ok, pure_bind, skipped, later, List.forM, carryOut,
            List.foldl_cons, PmpReport.add, bind_assoc]
        · rw [HartM.protectChecked_eq, onHart_protect protection slots]
          cases encoded : protection.encode? report.slots with
          | error error =>
            simp only [checked_ok, pure_bind, skipped, later, List.forM, carryOut,
              List.foldl_cons, PmpReport.add, bind_assoc]
          | ok settings =>
            have inside := Protection.le_of_encode? encoded
            have placed : report.place? protection.slots = .ok { report with
                slots := report.slots + protection.slots
                configured := report.configured + 1 } :=
              PmpReport.place?_eq (by omega) (by omega)
            have next := @ih (index + 1) { report with
                slots := report.slots + protection.slots
                configured := report.configured + 1 } (by omega) inside (by dsimp only; omega)
            simp only [checked_ok, pure_bind, placed, next, List.forM, carryOut,
              List.foldl_cons, PmpReport.add, bind_assoc, Protection.length_of_encode? encoded]

/-- Domains whose regions can be counted are protected in checked arithmetic as they are without. -/
theorem configureChecked_eq (record : FeatureRecord) {domain : Domain}
    (counted : domain.regions.length ≤ Word.ones.toNat) :
    configureChecked record domain = configure record domain := by
  have rest := @configureFrom_eq record domain.name domain.regions.length domain.regions 0 {}
    (Nat.zero_add _) counted (Nat.zero_le _) rfl
  rw [configureChecked, configure, rest]
  dsimp only
  split
  · rfl
  · simp only [bind_assoc, pure_bind]
    rfl

end BootM

end HartBoot
