import HartBoot.Byte
import HartBoot.Features

/-! # The text of a feature set

Diagnostics list the features of a hart by name, separated by commas. Early firmware has no heap,
so the list is written piece by piece into a buffer that is lent for the purpose. What does not
fit is dropped: no write goes past the end of the buffer, and no write stops the next one.
-/

namespace HartBoot

/-- A buffer that is filled from the start. -/
structure Sink where
  bytes : List Byte
  filled : Nat := 0
  filled_le : filled ≤ bytes.length := by simp

namespace Sink

/-- Append as many of the given bytes as still fit. -/
def write (sink : Sink) (text : List Byte) : Sink :=
  let piece := text.take (sink.bytes.length - sink.filled)
  { bytes := sink.bytes.take sink.filled ++ piece ++ sink.bytes.drop (sink.filled + piece.length)
    filled := sink.filled + piece.length
    filled_le := by
      have room : piece.length ≤ sink.bytes.length - sink.filled := by
        simp only [piece, List.length_take]
        omega
      have inside := sink.filled_le
      simp only [List.length_append, List.length_take, List.length_drop]
      omega }

/-- The bytes written so far. -/
def content (sink : Sink) : List Byte := sink.bytes.take sink.filled

/-- Writing never changes the size of the buffer. -/
theorem length_bytes_write (sink : Sink) (text : List Byte) :
    (sink.write text).bytes.length = sink.bytes.length := by
  have inside := sink.filled_le
  simp only [write, List.length_append, List.length_take, List.length_drop]
  omega

end Sink

namespace FeatureFlags

/-- The names of a set separated by commas, or a word of its own for a set without names. -/
def text (flags : FeatureFlags) : String :=
  match flags.featureNames with
  | [] => "none"
  | names => String.intercalate "," names

/-- Write the text of a set into a buffer, name by name. -/
def write (flags : FeatureFlags) (sink : Sink) : Sink :=
  match flags.featureNames with
  | [] => sink.write (asciiBytes "none")
  | first :: rest =>
    rest.foldl (fun sink name => (sink.write (asciiBytes ",")).write (asciiBytes name))
      (sink.write (asciiBytes first))

/-- Size of the buffer that a hart's features are written to in diagnostics. -/
def textCapacity : Nat := 64

/-- The text of a set, cut to a buffer of the given content. -/
def cutText (flags : FeatureFlags) (buffer : List Byte) : String :=
  asciiText (flags.write { bytes := buffer }).content

end FeatureFlags

end HartBoot
