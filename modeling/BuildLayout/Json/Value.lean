import BuildLayout.Number.Shortest
import BuildLayout.Text.Quoted

/-! # JSON values

`Json` is the type of JSON values. The fields of an object are kept sorted by name with one value
for each (`Json.ofFields`, `insertField`), so two objects with the same fields are equal however
they were written. `compact` and `pretty` print a value.
-/

namespace BuildLayout

/-- A JSON number: an integer that fits in 64 bits, or any other number as a binary one. -/
inductive Json.Number where
  | integer (i : Int)
  | real (x : Binary64)
deriving DecidableEq, Repr

/-- A JSON value. -/
inductive Json where
  | null
  | bool (b : Bool)
  | number (n : Json.Number)
  | string (s : String)
  | array (items : List Json)
  | object (fields : List (String × Json))
deriving BEq, Repr, Inhabited

namespace Json

/-- Puts a field at its place in fields sorted by name; an earlier value of the name is replaced. -/
def insertField (name : String) (value : Json) : List (String × Json) → List (String × Json)
  | [] => [(name, value)]
  | (n, v) :: fields =>
    if name < n then (name, value) :: (n, v) :: fields
    else if name = n then (name, value) :: fields
    else (n, v) :: insertField name value fields

/-- The object with these fields; of two with one name the later counts. -/
def ofFields (fields : List (String × Json)) : Json :=
  .object (fields.foldl (fun fs f => insertField f.1 f.2 fs) [])

/-- The value of a field. -/
def field? (fields : List (String × Json)) (name : String) : Option Json :=
  fields.lookup name

/-- A whole number. -/
def int (i : Int) : Json := .number (.integer i)

/-- A list of texts. -/
def strings (items : List String) : Json := .array (items.map .string)

/-- A text, or `null` where there is none. -/
def stringOrNull : Option String → Json
  | some s => .string s
  | none => .null

/-- How a character stands in a JSON text: short escapes where there are some, four digits for the
other controls, and the character itself otherwise. -/
def escapedChar (c : Char) : List Char :=
  if c = '"' then ['\\', '"']
  else if c = '\\' then ['\\', '\\']
  else if c = '\n' then ['\\', 'n']
  else if c = '\r' then ['\\', 'r']
  else if c = '\t' then ['\\', 't']
  else if c = '\x08' then ['\\', 'b']
  else if c = '\x0C' then ['\\', 'f']
  else if c.toNat < 0x20 then
    ['\\', 'u', '0', '0', Text.hexDigit (c.toNat / 16), Text.hexDigit (c.toNat % 16)]
  else [c]

/-- A text as a JSON string literal. -/
def literal (s : String) : String :=
  String.ofList ('"' :: s.toList.flatMap escapedChar ++ ['"'])

/-- A number as a JSON text. -/
def Number.text : Number → String
  | .integer i => toString i
  | .real x => x.toJsonText

mutual

/-- The value on one line, without blanks. -/
def compact : Json → String
  | .null => "null"
  | .bool b => if b then "true" else "false"
  | .number n => n.text
  | .string s => literal s
  | .array items => "[" ++ compactItems items ++ "]"
  | .object fields => "\x7b" ++ compactFields fields ++ "\x7d"

/-- The items with commas between them. -/
def compactItems : List Json → String
  | [] => ""
  | [v] => compact v
  | v :: rest => compact v ++ "," ++ compactItems rest

/-- The fields with commas between them. -/
def compactFields : List (String × Json) → String
  | [] => ""
  | [(n, v)] => literal n ++ ":" ++ compact v
  | (n, v) :: rest => literal n ++ ":" ++ compact v ++ "," ++ compactFields rest

end

/-- A new line, indented by two spaces for each level. -/
def newLine (level : Nat) : String :=
  String.ofList ('\n' :: List.replicate (2 * level) ' ')

mutual

/-- The value with a line for each item and field, at a level of nesting. -/
def prettyAt (level : Nat) : Json → String
  | .null => "null"
  | .bool b => if b then "true" else "false"
  | .number n => n.text
  | .string s => literal s
  | .array [] => "[]"
  | .array items => "[" ++ prettyItems (level + 1) items ++ newLine level ++ "]"
  | .object [] => "\x7b\x7d"
  | .object fields => "\x7b" ++ prettyFields (level + 1) fields ++ newLine level ++ "\x7d"

/-- The items, each on lines of its own. -/
def prettyItems (level : Nat) : List Json → String
  | [] => ""
  | [v] => newLine level ++ prettyAt level v
  | v :: rest => newLine level ++ prettyAt level v ++ "," ++ prettyItems level rest

/-- The fields, each on lines of its own. -/
def prettyFields (level : Nat) : List (String × Json) → String
  | [] => ""
  | [(n, v)] => newLine level ++ literal n ++ ": " ++ prettyAt level v
  | (n, v) :: rest =>
    newLine level ++ literal n ++ ": " ++ prettyAt level v ++ "," ++ prettyFields level rest

end

/-- The value over several lines, two spaces a level. -/
def pretty (v : Json) : String := prettyAt 0 v

/-- How a value that was found in place of another is called. -/
def found : Json → String
  | .null => "null"
  | .bool b => if b then "boolean `true`" else "boolean `false`"
  | .number (.integer i) => "integer `" ++ toString i ++ "`"
  | .number (.real x) => "floating point `" ++ x.toJsonText ++ "`"
  | .string s => "string " ++ Text.quoted s
  | .array _ => "sequence"
  | .object _ => "map"

end Json

end BuildLayout
