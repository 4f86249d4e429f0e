/-! # Bytes

Memory and text buffers hold bytes. Text in this library that goes through a byte buffer is made
of ASCII characters, each of which takes one byte.
-/

namespace HartBoot

/-- Eight bits of memory. -/
abbrev Byte := BitVec 8

/-- The bytes of an ASCII text. -/
def asciiBytes (text : String) : List Byte :=
  text.toList.map fun character => BitVec.ofNat 8 character.toNat

/-- The ASCII text with the given bytes. -/
def asciiText (bytes : List Byte) : String :=
  String.ofList (bytes.map fun byte => Char.ofNat byte.toNat)

end HartBoot
