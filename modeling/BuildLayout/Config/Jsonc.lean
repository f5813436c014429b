import BuildLayout.Text.Blank

/-! # JSON with comments

A configuration file is JSON in which comments and a comma after the last item are allowed.
`Jsonc.toJson` takes both out in two passes: `stripComments` leaves out every comment but the line
ends inside it, and `blankCommas` puts a space for a comma that only blanks separate from a closing
bracket. Neither looks inside strings, and both keep the lines, so a fault found in the result is on
the same line of the file.
-/

namespace BuildLayout.Jsonc

/-- Where a scan stands. -/
inductive Mode where
  | code
  /-- Inside a string. -/
  | string
  /-- After a back-slash inside a string. -/
  | escape
  /-- Inside a comment that ends with the line. -/
  | line
  /-- Inside a comment that ends with `*/`; the flag says that the character before is its `*`. -/
  | block (star : Bool)
deriving DecidableEq, Repr

/-- The text without comments; the line ends inside them are kept. -/
def stripComments : Mode → List Char → List Char
  | _, [] => []
  | .code, '/' :: '/' :: cs => stripComments .line cs
  | .code, '/' :: '*' :: cs => stripComments (.block false) cs
  | .code, c :: cs => c :: stripComments (if c = '"' then .string else .code) cs
  | .string, c :: cs =>
    c :: stripComments (if c = '\\' then .escape else if c = '"' then .code else .string) cs
  | .escape, c :: cs => c :: stripComments .string cs
  | .line, c :: cs => if c = '\n' then c :: stripComments .code cs else stripComments .line cs
  | .block star, c :: cs =>
    if c = '\n' then c :: stripComments (.block false) cs
    else if star ∧ c = '/' then stripComments .code cs
    else stripComments (.block (c = '*')) cs

/-- The first character that is not blank closes a list or an object. -/
def closesNext (cs : List Char) : Bool :=
  match cs.dropWhile Text.isBlank with
  | c :: _ => c == ']' || c == '\x7d'
  | [] => false

/-- The text with a space for each comma before a closing bracket. -/
def blankCommas : Mode → List Char → List Char
  | _, [] => []
  | .string, c :: cs =>
    c :: blankCommas (if c = '\\' then .escape else if c = '"' then .code else .string) cs
  | .escape, c :: cs => c :: blankCommas .string cs
  | _, c :: cs =>
    if c = ',' then (if closesNext cs then ' ' else ',') :: blankCommas .code cs
    else c :: blankCommas (if c = '"' then .string else .code) cs

/-- The JSON text that a JSON text with comments stands for. -/
def toJson (text : List Char) : List Char :=
  blankCommas .code (stripComments .code text)

end BuildLayout.Jsonc
