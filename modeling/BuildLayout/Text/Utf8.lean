/-! # Text from bytes

`decode` reads bytes as UTF-8, `encode` writes them and `byteLength` counts them. A sequence that is
not UTF-8 is refused at its first byte, with the number of bytes that were well formed up to the
first wrong one, or as `incomplete` when the bytes end inside it.
-/

namespace BuildLayout.Text

/-- The bytes of a file. -/
abbrev Bytes := List UInt8

/-- Why bytes are no text. -/
inductive Utf8Fault where
  /-- The `length` bytes from `index` on begin no character. -/
  | invalid (length index : Nat)
  /-- The bytes end inside the character that begins at `index`. -/
  | incomplete (index : Nat)
deriving DecidableEq, Repr

namespace Utf8Fault

/-- The wording of a fault. -/
def message : Utf8Fault → String
  | .invalid length index => s!"invalid utf-8 sequence of {length} bytes from index {index}"
  | .incomplete index => s!"incomplete utf-8 byte sequence from index {index}"

/-- The first byte that is in no character. -/
def index : Utf8Fault → Nat
  | invalid _ index => index
  | incomplete index => index

end Utf8Fault

/-- The byte continues a character. -/
def isContinuation (b : UInt8) : Bool :=
  0x80 ≤ b && b ≤ 0xBF

/-- The second bytes allowed after a lead byte of three: no overlong form and no surrogate. -/
def isSecondOfThree (lead b : UInt8) : Bool :=
  if lead == 0xE0 then 0xA0 ≤ b && b ≤ 0xBF
  else if lead == 0xED then 0x80 ≤ b && b ≤ 0x9F
  else isContinuation b

/-- The second bytes allowed after a lead byte of four: no overlong form, nothing past U+10FFFF. -/
def isSecondOfFour (lead b : UInt8) : Bool :=
  if lead == 0xF0 then 0x90 ≤ b && b ≤ 0xBF
  else if lead == 0xF4 then 0x80 ≤ b && b ≤ 0x8F
  else isContinuation b

/-- The six payload bits of a continuation byte. -/
def payload (b : UInt8) : Nat :=
  b.toNat % 64

/-- The characters of `bytes`, which stand at `index` in the file; `done` holds, last first, the
characters before them. -/
def decodeFrom (index : Nat) (done : List Char) (bytes : Bytes) :
    Except Utf8Fault (List Char) :=
  match bytes with
  | [] => .ok done.reverse
  | a :: rest =>
    if a < 0x80 then decodeFrom (index + 1) (Char.ofNat a.toNat :: done) rest
    else if 0xC2 ≤ a && a ≤ 0xDF then
      match rest with
      | [] => .error (.incomplete index)
      | b :: rest =>
        if isContinuation b then
          decodeFrom (index + 2) (Char.ofNat (a.toNat % 32 * 64 + payload b) :: done) rest
        else .error (.invalid 1 index)
    else if 0xE0 ≤ a && a ≤ 0xEF then
      match rest with
      | [] => .error (.incomplete index)
      | b :: rest =>
        if isSecondOfThree a b then
          match rest with
          | [] => .error (.incomplete index)
          | c :: rest =>
            if isContinuation c then
              decodeFrom (index + 3)
                (Char.ofNat ((a.toNat % 16 * 64 + payload b) * 64 + payload c) :: done) rest
            else .error (.invalid 2 index)
        else .error (.invalid 1 index)
    else if 0xF0 ≤ a && a ≤ 0xF4 then
      match rest with
      | [] => .error (.incomplete index)
      | b :: rest =>
        if isSecondOfFour a b then
          match rest with
          | [] => .error (.incomplete index)
          | c :: rest =>
            if isContinuation c then
              match rest with
              | [] => .error (.incomplete index)
              | d :: rest =>
                if isContinuation d then
                  decodeFrom (index + 4)
                    (Char.ofNat (((a.toNat % 8 * 64 + payload b) * 64 + payload c) * 64
                      + payload d) :: done) rest
                else .error (.invalid 3 index)
            else .error (.invalid 2 index)
        else .error (.invalid 1 index)
    else .error (.invalid 1 index)

/-- The text that the bytes spell in UTF-8. -/
def decode (bytes : Bytes) : Except Utf8Fault String :=
  match decodeFrom 0 [] bytes with
  | .ok chars => .ok (String.ofList chars)
  | .error fault => .error fault

/-- The bytes that spell a text in UTF-8. -/
def encode (s : String) : Bytes :=
  s.toUTF8.data.toList

/-- The number of bytes that spell characters in UTF-8. -/
def byteLength : List Char → Nat
  | [] => 0
  | c :: cs => c.utf8Size + byteLength cs

theorem byteLength_append (cs ds : List Char) :
    byteLength (cs ++ ds) = byteLength cs + byteLength ds := by
  induction cs with
  | nil => simp [byteLength]
  | cons c cs ih => simp [byteLength, ih, Nat.add_assoc]

end BuildLayout.Text
