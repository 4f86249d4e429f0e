import HartBoot.Checked.Calls
import HartBoot.Proofs.Checked

/-! # Calls in checked arithmetic do not overflow

What calls compute for their own sake does not overflow where they go on, and neither does what they
compute for the sake of their messages: sizes and ends of regions, the number of regions that are
left, and the text of the features of a hart, which is copied name by name into a buffer of its own.
A call in checked arithmetic therefore does what the call does, as long as the regions that it is
given can be counted.
-/

namespace HartBoot

namespace Sink

/-- A buffer and how far it is filled. -/
def state (sink : Sink) : List Byte × Nat := (sink.bytes, sink.filled)

/-- Copying into a buffer that a word can measure does not overflow. -/
theorem writeChecked?_eq (sink : Sink) (small : sink.bytes.length ≤ Word.ones.toNat)
    (text : List Byte) :
    writeChecked? sink.bytes sink.filled text = .ok (sink.write text).state := by
  have inside := sink.filled_le
  have fits : sink.filled + min text.length (sink.bytes.length - sink.filled) ≤
      sink.bytes.length := by omega
  have piece : text.take (min text.length (sink.bytes.length - sink.filled)) =
      text.take (sink.bytes.length - sink.filled) := by
    rw [Nat.min_comm, ← List.take_eq_take_min]
  have count : min text.length (sink.bytes.length - sink.filled) =
      (text.take (sink.bytes.length - sink.filled)).length := by
    rw [List.length_take, Nat.min_comm]
  simp only [writeChecked?, bind, Except.bind, Word.subtractCounts?_of_le inside,
    Word.addCounts?_of_le (fits.trans small), Word.subtractCounts?_of_le fits,
    Word.subtractCounts?_of_le (Nat.min_le_left text.length _)]
  rw [piece, count]
  rfl

end Sink

namespace FeatureFlags

/-- Name by name, a text is copied without overflow. -/
theorem foldlM_writeChecked? (names : List String) (sink : Sink)
    (small : sink.bytes.length ≤ Word.ones.toNat) :
    names.foldlM (fun sink name => do
        let sink ← Sink.writeChecked? sink.1 sink.2 (asciiBytes ",")
        Sink.writeChecked? sink.1 sink.2 (asciiBytes name)) sink.state =
      .ok (names.foldl (fun sink name =>
        (sink.write (asciiBytes ",")).write (asciiBytes name)) sink).state := by
  induction names generalizing sink with
  | nil => rfl
  | cons name rest ih =>
    have comma := (sink.length_bytes_write (asciiBytes ",")).trans_le small
    have named := ((sink.write (asciiBytes ",")).length_bytes_write (asciiBytes name)).trans_le comma
    have first : Sink.writeChecked? sink.state.1 sink.state.2 (asciiBytes ",") = _ :=
      Sink.writeChecked?_eq sink small _
    have second : Sink.writeChecked? (sink.write (asciiBytes ",")).state.1
        (sink.write (asciiBytes ",")).state.2 (asciiBytes name) = _ :=
      Sink.writeChecked?_eq _ comma _
    rw [List.foldlM_cons, List.foldl_cons, first]
    simp only [bind, Except.bind, second]
    exact ih _ named

theorem writeChecked?_eq (flags : FeatureFlags) {buffer : List Byte}
    (small : buffer.length ≤ Word.ones.toNat) :
    flags.writeChecked? buffer = .ok (flags.write { bytes := buffer }).state := by
  have empty (text : List Byte) : Sink.writeChecked? buffer 0 text = _ :=
    Sink.writeChecked?_eq { bytes := buffer } small text
  unfold writeChecked? write
  cases flags.featureNames with
  | nil => exact empty _
  | cons first rest =>
    have written := (Sink.length_bytes_write { bytes := buffer } (asciiBytes first)).trans_le small
    dsimp only
    rw [empty]
    exact foldlM_writeChecked? rest _ written

/-- The text of a set is cut to a buffer without overflow. -/
theorem cutTextChecked?_eq (flags : FeatureFlags) {buffer : List Byte}
    (small : buffer.length ≤ Word.ones.toNat) :
    flags.cutTextChecked? buffer = .ok (flags.cutText buffer) := by
  simp only [cutTextChecked?, writeChecked?_eq flags small, bind, Except.bind,
    Sink.state, Word.subtractCounts?_of_le (flags.write { bytes := buffer }).filled_le]
  rfl

end FeatureFlags

namespace BootM

theorem reportFeaturesChecked_eq (record : FeatureRecord) :
    reportFeaturesChecked record = reportFeatures record := by
  have small : (List.replicate FeatureFlags.textCapacity (0 : Byte)).length ≤ Word.ones.toNat := by
    decide
  simp only [reportFeaturesChecked, FeatureFlags.cutTextChecked?_eq _ small, checked_ok, pure_bind]
  rfl

/-- Initialization in checked arithmetic does what initialization does. -/
theorem initChecked_eq (platform : Platform) (cold : Bool) :
    initChecked platform cold = init platform cold := by
  simp only [initChecked, HartM.detectChecked_eq, reportFeaturesChecked_eq]
  rfl

end BootM

theorem BootStep.actionChecked_eq {step : BootStep}
    (countable : (HartCall.boot step).Countable) : step.actionChecked = step.action := by
  cases step with
  | init platform cold => rw [actionChecked, BootM.initChecked_eq, action]
  | detect => rw [actionChecked, HartM.detectChecked_eq, action]
  | configure domain =>
    simp only [actionChecked, action, BootM.configureChecked_eq _ countable]
  | setBlock entry flags base order => rw [actionChecked, HartM.setBlockChecked_eq, action]
  | setRange entry flags start limit => rw [actionChecked, HartM.setRangeChecked_eq, action]
  | reinit platform => rfl
  | delegateTraps given platform => rfl
  | switchMode request arg0 arg1 => rfl

/-- Calls in checked arithmetic do what calls do, as long as the regions of domains can be counted. -/
theorem HartCall.actionChecked_eq {call : HartCall} (countable : call.Countable) :
    call.actionChecked = call.action := by
  cases call with
  | boot step => rw [actionChecked, BootStep.actionChecked_eq countable, action]
  | configure record domain => rw [actionChecked, BootM.configureChecked_eq record countable, action]
  | validate request => rfl
  | prepare request => rfl

end HartBoot
