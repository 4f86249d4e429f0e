import HartBoot.Features
import HartBoot.Scratch.Item

/-! # Feature records in scratch memory

A feature record takes 32 bytes, with its fields in order and each field aligned to its own size.
Every bit of every field is kept, whether it has a name or not.
-/

namespace HartBoot.FeatureRecord

/-- Size of a record in memory. -/
def byteSize : Nat := 32

/-- Alignment of a record, that of its widest fields. -/
def alignment : Nat := 8

/-- The bytes of a record. -/
def encode (record : FeatureRecord) : List Byte :=
  littleEndian 8 record.features.bits.toNat ++ littleEndian 4 record.pmpCount.toNat
    ++ littleEndian 4 record.pmpAddrBits.toNat ++ littleEndian 8 record.pmpGran.toNat
    ++ littleEndian 4 record.counterCount.toNat ++ littleEndian 4 record.counterBits.toNat

/-- The number kept in some of the bytes of a record. -/
def part (bytes : List Byte) (position count : Nat) : Nat :=
  ofLittleEndian ((bytes.drop position).take count)

/-- The record with the given bytes. -/
def decode (bytes : List Byte) : FeatureRecord where
  features := ⟨BitVec.ofNat 64 (part bytes 0 8)⟩
  pmpCount := BitVec.ofNat 32 (part bytes 8 4)
  pmpAddrBits := BitVec.ofNat 32 (part bytes 12 4)
  pmpGran := BitVec.ofNat 64 (part bytes 16 8)
  counterCount := BitVec.ofNat 32 (part bytes 24 4)
  counterBits := BitVec.ofNat 32 (part bytes 28 4)

theorem alignment_pos : 0 < alignment := Nat.succ_pos 7

theorem length_encode (record : FeatureRecord) : record.encode.length = byteSize := by
  simp [encode, byteSize]

/-- All fields of a record survive being kept in memory. -/
theorem decode_encode (record : FeatureRecord) : decode record.encode = record := by
  have wide (word : BitVec 64) :
      BitVec.ofNat 64 (ofLittleEndian (littleEndian 8 word.toNat)) = word :=
    ofNat_ofLittleEndian_littleEndian 8 word
  have narrow (word : BitVec 32) :
      BitVec.ofNat 32 (ofLittleEndian (littleEndian 4 word.toNat)) = word :=
    ofNat_ofLittleEndian_littleEndian 4 word
  simp [decode, encode, part, List.drop_append, List.drop_of_length_le,
    List.take_of_length_le, wide, narrow]

instance : Item FeatureRecord where
  size := byteSize
  align := alignment
  align_pos := alignment_pos
  encode := encode
  decode := decode
  length_encode := length_encode
  decode_encode := decode_encode

end HartBoot.FeatureRecord
