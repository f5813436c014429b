/-! # What scripts print

`echoed` gives the text that is printed for words, in which a back-slash begins an escape. Escapes in
base eight may stand for any byte.
-/

namespace BuildLayout.Shell

/-- A digit of base eight. -/
def isOctal (c : Char) : Bool := '0' ≤ c && c ≤ '7'

/-- The character that digits of base eight stand for. -/
def octalChar (ds : List Char) : Char :=
  Char.ofNat (ds.foldl (fun n d => n * 8 + (d.toNat - 0x30)) 0 % 256)

/-- The character for a letter after a back-slash. -/
def escapeChar? (c : Char) : Option Char :=
  [('a', '\x07'), ('b', '\x08'), ('e', '\x1b'), ('f', '\x0c'), ('n', '\n'), ('r', '\r'), ('t', '\t'),
    ('v', '\x0b'), ('\\', '\\')].lookup c

/-- What follows a back-slash: the character it stands for, and how many characters spell it. -/
def escapeAfter (cs : List Char) : Char × Nat :=
  let ds := (cs.take 3).takeWhile isOctal
  if ds ≠ [] then (octalChar ds, ds.length)
  else
    match cs.head?.bind escapeChar? with
    | some c => (c, 1)
    | none => ('\\', 0)

/-- A text with its escapes taken for what they stand for; one with `c` ends it, which is told. In base
eight a zero may stand before three digits. -/
def unescaped : (fuel : Nat) → List Char → List Char × Bool
  | 0, _ => ([], false)
  | _, [] => ([], false)
  | fuel + 1, c :: cs =>
    if c = '\\' then
      if cs.head? = some 'c' then ([], true)
      else
        let cs := if cs.head? = some '0' ∧ (cs.drop 1).head?.any isOctal then cs.drop 1 else cs
        let (c, n) := escapeAfter cs
        let (rest, ended) := unescaped fuel (cs.drop n)
        (c :: rest, ended)
    else
      let (rest, ended) := unescaped fuel cs
      (c :: rest, ended)

/-- Words with blanks between them, and a newline unless it is not wanted. -/
def echoed (args : List String) : String :=
  let (newline, args) := match args with
    | "-n" :: args => (false, args)
    | args => (true, args)
  let cs := (" ".intercalate args).toList
  let (cs, ended) := unescaped (cs.length + 1) cs
  String.ofList (if newline && !ended then cs ++ ['\n'] else cs)

end BuildLayout.Shell
