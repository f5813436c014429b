import BuildLayout.Settings.Escaped
import BuildLayout.Text.Blank

/-! # Settings in the environment

A variable whose name starts with `AIRSHIP__`, in letters of either case, gives a setting: the rest
of the name, in lower case, is a chain of keys between double underscores or dots. Its value is a
truth value, a number, a quoted text, a list in brackets, a table in braces, or else plain text
without the blanks around it; a value that is none of these as a whole is plain text as it stands.
-/

namespace BuildLayout.Settings.Environment

/-! ## Values -/

/-- A character that ends plain text inside a value. -/
def isSeparator (c : Char) : Bool :=
  c == ',' || c == '\x7b' || c == '\x7d' || c == '[' || c == ']'

/-- A character of a key that is not quoted. -/
def isKeyChar (c : Char) : Bool :=
  ('a' ≤ c && c ≤ 'z') || ('A' ≤ c && c ≤ 'Z') || ('0' ≤ c && c ≤ '9') || c == '_' || c == '-'

/-- The text without the blanks at its beginning. -/
def skipBlank (cs : List Char) : List Char := cs.dropWhile Text.isAsciiBlank

/-- A whole number that fits in 64 bits. -/
def integer? (cs : List Char) : Option Scalar :=
  let (negative, ds) := Numeral.dropSign cs
  match Numeral.digits? ds with
  | none => none
  | some n =>
    if negative then if n ≤ Nat.pow 2 63 then some (.signed (-(n : Int))) else none
    else if n < Nat.pow 2 64 then some (.unsigned n) else none

/-- What plain text inside a value stands for. -/
def plain (cs : List Char) : Scalar :=
  let cs := Text.trimChars cs
  let number := if cs.contains '.' then (Numeral.real? cs).or (integer? cs) else integer? cs
  number.getD (.text (String.ofList cs))

/-- The text after a word that stands at its beginning. -/
def dropWord? (word : List Char) (cs : List Char) : Option (List Char) :=
  if word.isPrefixOf cs then some (cs.drop word.length) else none

/-- The characters at the beginning of a text that take up at most `size` bytes. -/
def keepBytes (size : Nat) : List Char → List Char
  | [] => []
  | c :: cs => if c.utf8Size ≤ size then c :: keepBytes (size - c.utf8Size) cs else []

/-- Reads a text between double quotes after the first of them. Of the characters before the first
escape as many bytes are kept as there are characters. -/
def quotedText? (cs : List Char) : Option (String × List Char) :=
  let plain := cs.takeWhile fun c => c ≠ '"' && c ≠ '\\'
  let rest := cs.drop plain.length
  if plain.all isVisible then
    if rest.head? = some '\\' then escapedText? (keepBytes plain.length plain).reverse rest
    else escapedText? plain.reverse rest
  else none

/-- Reads a key with the blanks around it. -/
def key? (cs : List Char) : Option (String × List Char) :=
  let cs := skipBlank cs
  match cs with
  | '"' :: rest => (quotedText? rest).map fun (key, cs) => (key, skipBlank cs)
  | _ =>
    let key := cs.takeWhile isKeyChar
    if key = [] then none else some (String.ofList key, skipBlank (cs.dropWhile isKeyChar))

mutual

/-- Reads a value with the blanks around it, in at most `fuel` steps. -/
def value? : (fuel : Nat) → List Char → Option (Value × List Char)
  | 0, _ => none
  | fuel + 1, cs =>
    let cs := skipBlank cs
    let value : Option (Value × List Char) :=
      match dropWord? "true".toList cs, dropWord? "false".toList cs with
      | some cs, _ => some (.scalar .environment (.flag true), cs)
      | none, some cs => some (.scalar .environment (.flag false), cs)
      | none, none =>
        match cs with
        | '\x7b' :: cs =>
          (entries? fuel [] cs).map fun (es, cs) => (.table .environment (Value.sortEntries es), cs)
        | '[' :: cs => (items? fuel [] cs).map fun (vs, cs) => (.list .environment vs, cs)
        | '"' :: cs =>
          (quotedText? cs).map fun (s, cs) => (.scalar .environment (.text s), cs)
        | '\'' :: c :: '\'' :: cs => some (.scalar .environment (.character c), cs)
        | '\'' :: _ => none
        | cs =>
          some (.scalar .environment (plain (cs.takeWhile fun c => !isSeparator c)),
            cs.dropWhile fun c => !isSeparator c)
    value.map fun (v, cs) => (v, skipBlank cs)

/-- Reads the items of a list up to its bracket; `done` holds those before, last first. -/
def items? : (fuel : Nat) → List Value → List Char → Option (List Value × List Char)
  | 0, _, _ => none
  | _ + 1, done, ']' :: cs => some (done.reverse, cs)
  | fuel + 1, done, cs =>
    match value? fuel cs with
    | none => none
    | some (v, ',' :: cs) => items? fuel (v :: done) cs
    | some (v, ']' :: cs) => some ((v :: done).reverse, cs)
    | some _ => none

/-- Reads the entries of a table up to its brace; `done` holds those before, last first. -/
def entries? : (fuel : Nat) → List (String × Value) → List Char →
    Option (List (String × Value) × List Char)
  | 0, _, _ => none
  | _ + 1, done, '\x7d' :: cs => some (done.reverse, cs)
  | fuel + 1, done, cs =>
    match key? cs with
    | some (key, '=' :: cs) =>
      match value? fuel cs with
      | none => none
      | some (v, ',' :: cs) => entries? fuel ((key, v) :: done) cs
      | some (v, '\x7d' :: cs) => some (((key, v) :: done).reverse, cs)
      | some _ => none
    | _ => none

end

/-- What the value of a variable stands for. Every step of the reader below the first consumes a
character, so twice their number suffices. -/
def parse (s : String) : Value :=
  match value? (2 * s.toList.length + 2) s.toList with
  | some (v, []) => v
  | _ => .scalar .environment (.text s)

/-! ## Variables -/

/-- What the names of the variables start with. -/
def namePrefix : String := "AIRSHIP__"

/-- The letter in lower case. -/
def lower (c : Char) : Char :=
  if 'A' ≤ c ∧ c ≤ 'Z' then Char.ofNat (c.toNat + 0x20) else c

/-- The letter in upper case. -/
def upper (c : Char) : Char :=
  if 'a' ≤ c ∧ c ≤ 'z' then Char.ofNat (c.toNat - 0x20) else c

/-- The text with dots for double underscores. -/
def dotted : List Char → List Char
  | '_' :: '_' :: cs => '.' :: dotted cs
  | c :: cs => c :: dotted cs
  | [] => []

/-- The keys that the name of a variable stands for. -/
def keys? (name : String) : Option (List String) :=
  let cs := (Text.trimChars name.toList).map lower
  let start := namePrefix.toList.map lower
  if start.isPrefixOf cs then
    let keys := Text.splitOn '.' (Text.trimChars (dotted (cs.drop start.length)))
    if keys.contains [] then none else some (keys.map String.ofList)
  else none

/-- The settings that variables give, later ones over earlier ones. -/
def settings (vars : List (String × String)) : Value :=
  vars.foldl
    (fun v (name, value) =>
      match keys? name with
      | none => v
      | some keys => v.merge (.nest .environment (parse value) keys))
    (.table .environment [])

end BuildLayout.Settings.Environment
