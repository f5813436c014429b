import BuildLayout.Text.Stray

/-! # Texts of octets

A shell works on bytes: lengths, cuts and patterns count them. Its texts therefore hold one character
for each byte. `ofBytes` and `toBytes` go from bytes to such a text and back; `narrow` and `widen` do
so for the bytes of a name.
-/

namespace BuildLayout.Shell

open Text (Bytes)

/-- A text with one character for each byte. -/
def ofBytes (bytes : Bytes) : String := String.ofList (bytes.map fun b => Char.ofNat b.toNat)

/-- The bytes that the characters of a text stand for. -/
def toBytes (s : String) : Bytes := s.toList.map fun c => UInt8.ofNat c.toNat

/-- The text of the bytes of a name. -/
def narrow (s : String) : String := ofBytes (Text.nameBytes s)

/-- The name with these bytes. -/
def widen (s : String) : String := Text.ofNameBytes (toBytes s)

end BuildLayout.Shell
