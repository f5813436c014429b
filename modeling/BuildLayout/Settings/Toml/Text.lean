import BuildLayout.Settings.Escaped

/-! # Keys, strings and comments of a TOML document

Every reader takes the characters that are left and gives a value with the characters after it, or
`none` when the text is not well formed.
-/

namespace BuildLayout.Settings.Toml

/-- Space and tab, the blanks within a line. -/
def isBlank (c : Char) : Bool := c == ' ' || c == '\t'

/-- The text without the blanks at its beginning. -/
def skipBlank (cs : List Char) : List Char := cs.dropWhile isBlank

/-- The text after the newline at its beginning. -/
def dropNewline? : List Char → Option (List Char)
  | '\n' :: cs => some cs
  | '\r' :: '\n' :: cs => some cs
  | _ => none

/-- The text after the blanks, comments and newlines at its beginning; `comment` says that it starts
inside a comment. -/
def skipFiller? (comment : Bool) : List Char → Option (List Char)
  | [] => some []
  | '\r' :: '\n' :: cs => skipFiller? false cs
  | c :: cs =>
    if c = '\n' then skipFiller? false cs
    else if comment then if isVisible c then skipFiller? true cs else none
    else if isBlank c then skipFiller? false cs
    else if c = '#' then skipFiller? true cs
    else some (c :: cs)

/-- The text after the end of a line, before which blanks and a comment may stand. -/
def endLine? (cs : List Char) : Option (List Char) :=
  let cs := match skipBlank cs with
    | '#' :: cs => cs.dropWhile isVisible
    | cs => cs
  if cs = [] then some [] else dropNewline? cs

/-! ## Strings -/

/-- Reads a text between single quotes after the first of them. -/
def literalText? (cs : List Char) : Option (String × List Char) :=
  let isPlain c := isVisible c && c ≠ '\''
  match cs.dropWhile isPlain with
  | '\'' :: rest => some (String.ofList (cs.takeWhile isPlain), rest)
  | _ => none

/-- The quotes that end a text of several lines: three, and before them at most two that belong to
the text, which are given with what follows. -/
def closing? (mark : Char) (cs : List Char) : Option (List Char × List Char) :=
  let n := min 5 (cs.takeWhile (· = mark)).length
  if n < 3 then none else some (List.replicate (n - 3) mark, cs.drop n)

/-- Reads a text of several lines, between three quotes at each end. Between double quotes there are
escapes, and a back-slash at the end of a line takes back all blanks and newlines up to the next
character; `skipping` says that this is being done. -/
def linesText? (mark : Char) (skipping : Bool) (done : List Char) (cs : List Char) :
    Option (String × List Char) :=
  match cs with
  | [] => none
  | c :: cs =>
    if skipping && (isBlank c || c = '\n') then linesText? mark true done cs
    else if c = '\n' then linesText? mark false ('\n' :: done) cs
    else if c = '\r' then
      if cs.head? = some '\n' then
        linesText? mark skipping (if skipping then done else '\n' :: done) (cs.drop 1)
      else none
    else if c = mark then
      match closing? mark (c :: cs) with
      | some (quotes, rest) => some (String.ofList (done.reverse ++ quotes), rest)
      | none => linesText? mark false (c :: done) cs
    else if c = '\\' ∧ mark = '"' then
      if (dropNewline? (skipBlank cs)).isSome then linesText? mark true done cs
      else
        match escape? cs with
        | none => none
        | some (ch, n) => linesText? mark false (ch :: done) (cs.drop n)
    else if isVisible c then linesText? mark false (c :: done) cs
    else none
termination_by cs.length
decreasing_by all_goals simp; try omega

/-- Reads a text of several lines after its opening quotes; a newline directly after them does not
belong to it. -/
def linesTextAfter? (mark : Char) (cs : List Char) : Option (String × List Char) :=
  linesText? mark false [] ((dropNewline? cs).getD cs)

/-- Reads a text that begins with a quote. -/
def text? : List Char → Option (String × List Char)
  | '"' :: '"' :: '"' :: cs => linesTextAfter? '"' cs
  | '\'' :: '\'' :: '\'' :: cs => linesTextAfter? '\'' cs
  | '"' :: cs => escapedText? [] cs
  | '\'' :: cs => literalText? cs
  | _ => none

/-! ## Keys -/

/-- A character of a key that is not quoted. -/
def isKeyChar (c : Char) : Bool :=
  ('a' ≤ c && c ≤ 'z') || ('A' ≤ c && c ≤ 'Z') || ('0' ≤ c && c ≤ '9') || c == '_' || c == '-'

/-- Reads one part of a key. -/
def keyPart? : List Char → Option (String × List Char)
  | '"' :: cs => escapedText? [] cs
  | '\'' :: cs => literalText? cs
  | cs =>
    let key := cs.takeWhile isKeyChar
    if key = [] then none else some (String.ofList key, cs.dropWhile isKeyChar)

/-- Reads a key with the blanks around it: at most `n` parts, with dots between them. -/
def keyUpTo? : (n : Nat) → List Char → Option (List String × List Char)
  | 0, _ => none
  | n + 1, cs =>
    match keyPart? (skipBlank cs) with
    | none => none
    | some (part, cs) =>
      match skipBlank cs with
      | '.' :: cs => (keyUpTo? n cs).map fun (parts, cs) => (part :: parts, cs)
      | cs => some ([part], cs)

/-- The greatest depth at which values and keys are nested. -/
def maxDepth : Nat := 79

/-- Reads a key with the blanks around it. -/
def key? (cs : List Char) : Option (List String × List Char) := keyUpTo? maxDepth cs

end BuildLayout.Settings.Toml
