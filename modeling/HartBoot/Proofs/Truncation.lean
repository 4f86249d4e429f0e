import HartBoot.Proofs.Messages

/-! # The text of a feature set is cut to its buffer

Writes into a buffer add up: whatever the pieces are, and wherever the buffer ends among them, it holds
as much of the whole text as fits, and behind that what it held before. The text of a feature set is
its names in the order of their bits, with commas in between, so what a buffer shows of it is a prefix
of that text. A text that fits is split at its commas into the names of the features again.
-/

namespace HartBoot

/-- The bytes of a text in memory. -/
def utf8Bytes (text : String) : List Byte := text.toByteArray.data.toList.map UInt8.toBitVec

/-- Texts of ASCII characters. -/
def IsAscii (text : String) : Prop := ∀ character ∈ text.toList, character.toNat < 128

instance (text : String) : Decidable (IsAscii text) := List.decidableBAll _ text.toList

namespace IsAscii

variable {text : String}

/-- Every ASCII character takes one byte. -/
theorem asciiBytes_eq (ascii : IsAscii text) : asciiBytes text = utf8Bytes text := by
  have encoded (characters : List Char) (small : ∀ character ∈ characters, character.toNat < 128) :
      characters.map (fun character => BitVec.ofNat 8 character.toNat) =
        (characters.flatMap String.utf8EncodeChar).map UInt8.toBitVec := by
    induction characters with
    | nil => rfl
    | cons first rest ih =>
      have single : String.utf8EncodeChar first = [UInt8.ofNat first.toNat] :=
        if_pos (Nat.le_of_lt_succ (small first List.mem_cons_self))
      rw [List.map_cons, List.flatMap_cons, single, List.map_append,
        ih fun character later => small character (List.mem_cons_of_mem first later)]
      rfl
  rw [asciiBytes, encoded text.toList ascii, utf8Bytes, ← String.utf8Encode_toList,
    List.utf8Encode, List.data_toByteArray]

/-- The first bytes of a text are those of its first characters. -/
theorem asciiText_take (ascii : IsAscii text) (count : Nat) :
    asciiText ((asciiBytes text).take count) = String.ofList (text.toList.take count) := by
  have kept : ∀ character ∈ text.toList.take count,
      Char.ofNat (BitVec.ofNat 8 character.toNat).toNat = character := by
    intro character member
    have small := ascii character (List.mem_of_mem_take member)
    rw [BitVec.toNat_ofNat, Nat.mod_eq_of_lt (by omega)]
    exact Char.ofNat_toNat character
  rw [asciiText, asciiBytes, ← List.map_take, List.map_map]
  exact congrArg String.ofList ((List.map_congr_left kept).trans (List.map_id _))

theorem take (ascii : IsAscii text) (count : Nat) :
    IsAscii (String.ofList (text.toList.take count)) := by
  intro character member
  rw [String.toList_ofList] at member
  exact ascii character (List.mem_of_mem_take member)

theorem append {left right : String} (leftAscii : IsAscii left) (rightAscii : IsAscii right) :
    IsAscii (left ++ right) := by
  intro character member
  rw [String.toList_append, List.mem_append] at member
  exact member.elim (leftAscii character) (rightAscii character)

theorem intercalate {separator : String} (ascii : IsAscii separator) (texts : List String)
    (all : ∀ text ∈ texts, IsAscii text) : IsAscii (separator.intercalate texts) := by
  induction texts with
  | nil =>
    rw [String.intercalate_nil]
    exact fun character member => absurd member List.not_mem_nil
  | cons first rest ih =>
    have tail := ih fun text later => all text (List.mem_cons_of_mem first later)
    have head := all first List.mem_cons_self
    cases rest with
    | nil => rwa [String.intercalate_singleton]
    | cons second rest =>
      rw [String.intercalate_cons_cons]
      exact (head.append ascii).append tail

/-- A text that is cut between its bytes shows the same bytes. -/
theorem utf8Bytes_asciiText_take (ascii : IsAscii text) (count : Nat) :
    utf8Bytes (asciiText ((asciiBytes text).take count)) = (utf8Bytes text).take count := by
  rw [ascii.asciiText_take, ← (ascii.take count).asciiBytes_eq, ← ascii.asciiBytes_eq, asciiBytes,
    String.toList_ofList, asciiBytes, List.map_take]

end IsAscii

namespace Sink

theorem ext {left right : Sink} (bytes : left.bytes = right.bytes)
    (filled : left.filled = right.filled) : left = right := by
  obtain ⟨leftBytes, leftFilled, _⟩ := left
  obtain ⟨rightBytes, rightFilled, _⟩ := right
  obtain rfl : leftBytes = rightBytes := bytes
  obtain rfl : leftFilled = rightFilled := filled
  rfl

theorem overlay_le (buffer text : List Byte) :
    min text.length buffer.length ≤ (text.take buffer.length ++ buffer.drop text.length).length := by
  rw [List.length_append, List.length_take, List.length_drop]
  omega

/-- A buffer with as much of a text at its start as fits. -/
def overlay (buffer text : List Byte) : Sink where
  bytes := text.take buffer.length ++ buffer.drop text.length
  filled := min text.length buffer.length
  filled_le := overlay_le buffer text

@[simp] theorem bytes_overlay (buffer text : List Byte) :
    (overlay buffer text).bytes = text.take buffer.length ++ buffer.drop text.length := rfl

@[simp] theorem filled_overlay (buffer text : List Byte) :
    (overlay buffer text).filled = min text.length buffer.length := rfl

theorem overlay_nil (buffer : List Byte) : overlay buffer [] = { bytes := buffer } := by
  apply ext
  · rw [bytes_overlay, List.take_nil, List.nil_append, List.length_nil, List.drop_zero]
  · exact Nat.zero_min _

theorem content_overlay (buffer text : List Byte) :
    (overlay buffer text).content = text.take buffer.length := by
  rw [content, overlay, List.take_left']
  rw [List.length_take, Nat.min_comm]

theorem length_bytes_overlay (buffer text : List Byte) :
    (overlay buffer text).bytes.length = buffer.length := by
  rw [bytes_overlay, List.length_append, List.length_take, List.length_drop]
  omega

/-- Behind the text a buffer is as it was. -/
theorem drop_bytes_overlay {buffer text : List Byte} {count : Nat}
    (past : min text.length buffer.length ≤ count) :
    (overlay buffer text).bytes.drop count = buffer.drop count := by
  have behind : (text.take buffer.length).drop count = [] := by
    apply List.drop_eq_nil_of_le
    rwa [List.length_take, Nat.min_comm]
  rw [bytes_overlay, List.drop_append, behind, List.nil_append, List.drop_drop, List.length_take]
  rcases Nat.le_total text.length buffer.length with fits | full
  · congr 1
    omega
  · rw [List.drop_eq_nil_of_le (by omega), List.drop_eq_nil_of_le (by omega)]

/-- Writing one text and then another writes both in a row. -/
theorem write_overlay (buffer text piece : List Byte) :
    (overlay buffer text).write piece = overlay buffer (text ++ piece) := by
  -- subtraction stops at zero, so a buffer that is full already needs no case of its own
  have room : buffer.length - min text.length buffer.length = buffer.length - text.length := by omega
  have filled : min text.length buffer.length + min (buffer.length - text.length) piece.length =
      min (text ++ piece).length buffer.length := by
    rw [List.length_append]
    omega
  have shown : (overlay buffer text).bytes.take (min text.length buffer.length) =
      text.take buffer.length := content_overlay buffer text
  have hidden : (overlay buffer text).bytes.drop (min (text ++ piece).length buffer.length) =
      buffer.drop (text ++ piece).length := by
    rw [drop_bytes_overlay, ← List.drop_eq_drop_min]
    rw [List.length_append]
    omega
  apply ext
  · simp only [write, length_bytes_overlay, filled_overlay, room, shown, List.length_take, filled,
      hidden]
    rw [bytes_overlay, List.take_append]
  · simp only [write, length_bytes_overlay, filled_overlay, room, List.length_take, filled]

/-- The bytes of texts in a row are written as a whole. -/
theorem foldl_write_overlay (buffer text : List Byte) (names : List String) :
    names.foldl (fun sink name => (sink.write (asciiBytes ",")).write (asciiBytes name))
        (overlay buffer text) =
      overlay buffer (text ++ names.flatMap fun name => asciiBytes "," ++ asciiBytes name) := by
  induction names generalizing text with
  | nil => rw [List.foldl_nil, List.flatMap_nil, List.append_nil]
  | cons name rest ih =>
    rw [List.foldl_cons, write_overlay, write_overlay, ih, List.flatMap_cons]
    simp only [List.append_assoc]

end Sink

theorem asciiBytes_append (left right : String) :
    asciiBytes (left ++ right) = asciiBytes left ++ asciiBytes right := by
  rw [asciiBytes, String.toList_append, List.map_append]
  rfl

theorem asciiBytes_intercalate (separator first : String) (rest : List String) :
    asciiBytes (separator.intercalate (first :: rest)) =
      asciiBytes first ++ rest.flatMap fun name => asciiBytes separator ++ asciiBytes name := by
  induction rest generalizing first with
  | nil => rw [List.flatMap_nil, List.append_nil, String.intercalate_singleton]
  | cons second rest ih =>
    rw [String.intercalate_cons_cons, asciiBytes_append, asciiBytes_append, ih, List.flatMap_cons]
    simp only [List.append_assoc]

namespace FeatureFlags

/-- What is listed when there may be no names to list. -/
def orNone (names : List String) : List String := if names = [] then ["none"] else names

theorem text_eq_intercalate (flags : FeatureFlags) :
    flags.text = ",".intercalate (orNone flags.featureNames) := by
  unfold text orNone
  cases flags.featureNames with
  | nil => rw [if_pos rfl, String.intercalate_singleton]
  | cons first rest => rw [if_neg (List.cons_ne_nil first rest)]

/-- A buffer holds as much of the text of a set as fits. -/
theorem write_eq_overlay (flags : FeatureFlags) (buffer : List Byte) :
    flags.write { bytes := buffer } = Sink.overlay buffer (asciiBytes flags.text) := by
  have first (text : List Byte) :
      Sink.write { bytes := buffer } text = Sink.overlay buffer text := by
    rw [← Sink.overlay_nil, Sink.write_overlay, List.nil_append]
  unfold write text
  cases flags.featureNames with
  | nil => exact first _
  | cons name rest =>
    dsimp only
    rw [first, Sink.foldl_write_overlay, asciiBytes_intercalate]

theorem mem_of_listed (flags : FeatureFlags) {piece : String}
    (member : piece ∈ orNone flags.featureNames) : piece ∈ "none" :: named.map Prod.snd := by
  unfold orNone at member
  split at member
  · rw [List.mem_singleton.mp member]
    exact List.mem_cons_self
  · obtain ⟨feature, contained, rfl⟩ := List.mem_map.mp member
    exact List.mem_cons_of_mem _ (List.mem_map_of_mem (List.mem_of_mem_filter contained))

/-- What is listed are plain words. -/
theorem word_of_listed (flags : FeatureFlags) {piece : String}
    (member : piece ∈ orNone flags.featureNames) : IsAscii piece ∧ ',' ∉ piece.toList := by
  have words : ∀ piece ∈ "none" :: named.map Prod.snd,
      IsAscii piece ∧ ',' ∉ piece.toList := by decide
  exact words piece (flags.mem_of_listed member)

theorem isAscii_text (flags : FeatureFlags) : IsAscii flags.text := by
  rw [text_eq_intercalate]
  apply IsAscii.intercalate
  · decide
  · intro piece member
    exact (flags.word_of_listed member).1

/-- Splitting the text of a set at its commas recovers what is listed. -/
theorem splitOn_text (flags : FeatureFlags) :
    flags.text.toList.splitOn ',' = (orNone flags.featureNames).map String.toList := by
  rw [text_eq_intercalate, String.toList_intercalate]
  apply List.splitOn_intercalate
  · intro word member
    obtain ⟨piece, listed, rfl⟩ := List.mem_map.mp member
    exact (flags.word_of_listed listed).2
  · unfold orNone
    split <;> simp [*]

/-- The features whose names stand between the commas of a text. -/
def listed (text : String) : FeatureFlags :=
  ((named.filter fun feature => feature.2.toList ∈ text.toList.splitOn ',').map Prod.fst).foldr
    (· ∪ ·) .empty

/-- Every feature in a set is listed, and no other feature is. -/
theorem name_listed_iff (flags : FeatureFlags) {feature : FeatureFlags × String}
    (member : feature ∈ named) :
    feature.2 ∈ orNone flags.featureNames ↔ flags.contains feature.1 = true := by
  have distinct : ∀ left ∈ named, ∀ right ∈ named, left.2 = right.2 → left = right := by decide
  have marked : ∀ feature ∈ named, feature.2 ≠ "none" := by decide
  have contained : feature.2 ∈ flags.featureNames ↔ flags.contains feature.1 = true := by
    rw [featureNames, List.mem_map]
    constructor
    · rintro ⟨other, kept, same⟩
      obtain ⟨known, holds⟩ := List.mem_filter.mp kept
      rwa [← distinct other known feature member same]
    · intro holds
      exact ⟨feature, List.mem_filter.mpr ⟨member, holds⟩, rfl⟩
  rw [← contained, orNone]
  split
  next nothing =>
    rw [nothing, List.mem_singleton]
    exact iff_of_false (marked feature member) List.not_mem_nil
  next => rfl

/-- The features of a list that a set contains make up what the set has of the list. -/
theorem foldr_union_contained (flags : FeatureFlags) (features : List FeatureFlags)
    (single : ∀ feature ∈ features, ∃ position < 64, feature = ⟨(1 : Word) <<< position⟩) :
    (features.filter flags.contains).foldr (· ∪ ·) .empty =
      flags ∩ features.foldr (· ∪ ·) .empty := by
  induction features with
  | nil => exact (FlagSet.inter_empty flags).symm
  | cons feature rest ih =>
    obtain ⟨position, inside, rfl⟩ := single feature List.mem_cons_self
    have tail := ih fun feature later => single feature (List.mem_cons_of_mem _ later)
    -- the first feature is a single bit, which the set either has or does not meet at all
    rw [List.foldr_cons, FlagSet.inter_union, FlagSet.inter_single flags inside, ← tail,
      List.filter_cons]
    split
    next => rfl
    next => rw [FlagSet.empty_union]

/-- Reading the text of a set back gives its features. -/
theorem listed_text (flags : FeatureFlags) : listed flags.text = flags ∩ .all := by
  have single : ∀ feature ∈ named.map Prod.fst,
      ∃ position < 64, feature = ⟨(1 : Word) <<< position⟩ := by decide
  have whole : (named.map Prod.fst).foldr (· ∪ ·) .empty = FlagSet.all := by decide
  -- names tell the features apart, so picking by name is picking by containment
  have same : named.filter (fun feature => feature.2.toList ∈ flags.text.toList.splitOn ',') =
      named.filter (flags.contains ∘ Prod.fst) := by
    apply List.filter_congr
    intro feature member
    rw [Function.comp_apply, Bool.eq_iff_iff, decide_eq_true_iff, splitOn_text,
      ← flags.name_listed_iff member]
    exact List.mem_map_of_injective fun _ _ => String.toList_inj.mp
  rw [listed, same, ← List.filter_map, foldr_union_contained flags _ single, whole]

/-- Names of the known bits in diagnostics, by their positions. -/
def positionNames : List String :=
  ["scounteren", "mcounteren", "mcountinhibit", "sscofpmf", "time"]

/-- Names of the known bits of a word, from the lowest bit up. -/
def bitNames (bits : Word) : List String :=
  (positionNames.zipIdx.filter fun name => bits.getLsbD name.2).map Prod.fst

theorem featureNames_eq (flags : FeatureFlags) : flags.featureNames = bitNames flags.bits := by
  have listed : named = positionNames.zipIdx.map fun name => (⟨(1 : Word) <<< name.2⟩, name.1) := by
    decide
  have narrow : ∀ name ∈ positionNames.zipIdx, name.2 < 64 := by decide
  have same : positionNames.zipIdx.filter (flags.contains ⟨(1 : Word) <<< ·.2⟩) =
      positionNames.zipIdx.filter fun name => flags.bits.getLsbD name.2 := by
    apply List.filter_congr
    intro name member
    exact flags.contains_single (narrow name member)
  rw [featureNames, listed, List.filter_map, List.map_map, bitNames, ← same]
  rfl

/-- Whatever the buffer is, it takes as much of the text of a feature set as fits, from its start and in
the order of the bits, and keeps what it held behind that; what is told is what was taken. Copying runs
without overflow and within the buffer. When all of it fits, the text splits at its commas into the names
of the known bits, which say which bits these are. -/
theorem cutText_truncates (flags : FeatureFlags) (buffer : List Byte) :
    let full := utf8Bytes (",".intercalate (orNone (bitNames flags.bits)))
    let shown := full.take (min buffer.length full.length)
    utf8Bytes (flags.cutText buffer) = shown ∧
      (flags.write { bytes := buffer }).bytes = shown ++ buffer.drop shown.length ∧
      (buffer.length ≤ Word.ones.toNat →
        flags.writeChecked? buffer = .ok (shown ++ buffer.drop shown.length, shown.length) ∧
        flags.cutTextChecked? buffer = .ok (flags.cutText buffer)) ∧
      (full.length ≤ buffer.length →
        (flags.cutText buffer).toList.splitOn ',' =
          (orNone (bitNames flags.bits)).map String.toList ∧
        listed (flags.cutText buffer) = flags ∩ .all) := by
  intro full shown
  have ascii := flags.isAscii_text
  have bytes : asciiBytes flags.text = full := by
    rw [ascii.asciiBytes_eq, text_eq_intercalate, featureNames_eq]
  have prefixed : full.take buffer.length = shown := by
    rw [List.take_eq_take_min]
  have length : shown.length = min full.length buffer.length := by
    rw [← prefixed, List.length_take, Nat.min_comm]
  have kept : buffer.drop full.length = buffer.drop shown.length := by
    rw [length, ← List.drop_eq_drop_min]
  have written : flags.write { bytes := buffer } = Sink.overlay buffer full := by
    rw [write_eq_overlay, bytes]
  have told : flags.cutText buffer = asciiText ((asciiBytes flags.text).take buffer.length) := by
    rw [cutText, written, Sink.content_overlay, bytes]
  refine ⟨?_, ?_, fun small => ⟨?_, flags.cutTextChecked?_eq small⟩, fun fits => ?_⟩
  · rw [told, ascii.utf8Bytes_asciiText_take, ← ascii.asciiBytes_eq, bytes, prefixed]
  · rw [written, Sink.bytes_overlay, prefixed, kept]
  · rw [flags.writeChecked?_eq small, Sink.state, written, Sink.bytes_overlay, Sink.filled_overlay,
      prefixed, kept, length]
  · have whole : flags.cutText buffer = flags.text := by
      rw [told, ascii.asciiText_take, List.take_of_length_le, String.ofList_toList]
      rwa [← List.length_map, ← asciiBytes, bytes]
    rw [whole, splitOn_text, listed_text, featureNames_eq]
    exact ⟨rfl, rfl⟩

/-- A word with a bit that has no name, in a buffer with room to spare and in one that is too small. -/
theorem cutText_truncates_unnamed :
    let flags : FeatureFlags := ⟨0x10000000012⟩
    let buffer : List Byte := List.replicate 20 0xaa
    (flags.write { bytes := buffer }).bytes = utf8Bytes "mcounteren,time" ++ List.replicate 5 0xaa ∧
    flags.cutTextChecked? buffer = .ok (flags.cutText buffer) ∧
    listed (flags.cutText buffer) = ⟨0x12⟩ ∧
    utf8Bytes (flags.cutText (buffer.take 12)) = utf8Bytes "mcounteren,t" := by
  intro flags buffer
  have full : utf8Bytes (",".intercalate (orNone (bitNames flags.bits))) =
      utf8Bytes "mcounteren,time" := by decide
  obtain ⟨-, written, counted, recovered⟩ := cutText_truncates flags buffer
  obtain ⟨cut, -⟩ := cutText_truncates flags (buffer.take 12)
  rw [full] at written recovered cut
  have known : flags ∩ .all = ⟨0x12⟩ := by decide
  exact ⟨written, (counted (by decide)).2, (recovered (by decide)).2.trans known, cut⟩

end FeatureFlags

end HartBoot
