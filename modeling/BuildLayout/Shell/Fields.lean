import BuildLayout.Shell.Pattern

/-! # Dividing words

What a word is expanded to is a list of pieces. `divide` makes fields of them: a text that came from an
expansion outside quotes is divided at certain characters. Blanks among these characters count as one
when they stand together and do not count at the ends; each of the others ends a field.
-/

namespace BuildLayout.Shell

/-- A piece of an expanded word. -/
inductive Piece where
  /-- A character; `divides` says that a field may end there. -/
  | char (c : Char) (quoted divides : Bool)
  /-- Quotes were opened: a field is there even if it is empty. -/
  | quote
  /-- A text that may be divided begins. -/
  | edge
  /-- A field ends. -/
  | stop
deriving DecidableEq, Repr

/-- The pieces of a text. -/
def piecesOf (cs : List Char) (quoted divides : Bool) : List Piece :=
  (if divides then [Piece.edge] else []) ++ cs.map fun c => .char c quoted divides

/-- The pattern of pieces that are not divided. -/
def patternOf (ps : List Piece) : Pattern :=
  ps.filterMap fun
    | .char c quoted _ => some (c, quoted)
    | _ => none

/-- The text of pieces that are not divided. -/
def textOf (ps : List Piece) : String := String.ofList (patternOf ps).chars

/-- A blank by which fields are divided. -/
def isDividingBlank (c : Char) : Bool := c == ' ' || c == '\t' || c == '\n' || c == '\x00'

/-- The fields that were read of a word. -/
structure Division where
  /-- The fields that are complete, last first. -/
  finished : List Pattern := []
  /-- The characters of the field that is being read, last first. -/
  current : Pattern := []
  /-- The field that is being read is there even if it is empty. -/
  opened : Bool := false
  /-- A field ended with a blank, and only blanks came since. -/
  blank : Bool := false

namespace Division

/-- The field that is being read has something in it. -/
def isOpen (d : Division) : Bool := d.opened || !d.current.isEmpty

/-- The field that is being read ends. -/
def close (d : Division) : Division :=
  { d with finished := d.current.reverse :: d.finished, current := [], opened := false }

/-- One more piece; `dividers` are the characters at which fields end. -/
def step (dividers : List Char) (d : Division) : Piece → Division
  | .quote => { d with opened := true }
  | .edge => { d with blank := false }
  | .stop => d.close
  | .char c quoted false => { d with current := (c, quoted) :: d.current, blank := false }
  | .char c quoted true =>
    let isDivider := dividers.contains c || c == '\x00'
    let isBlank := isDivider && isDividingBlank c
    let kept : Division := { d with current := (c, quoted) :: d.current, blank := false }
    if !isDivider then kept
    else if d.blank then if isBlank then d else { d with blank := false }
    else if isBlank && !d.isOpen then d
    else { d.close with blank := isBlank }

end Division

/-- The fields of a word. -/
def divide (dividers : List Char) (ps : List Piece) : List Pattern :=
  let d := ps.foldl (Division.step dividers) {}
  (if d.isOpen then d.close else d).finished.reverse

/-- The words of a line for a number of names, of which the last takes what is left. -/
structure Reading where
  division : Division := {}
  /-- The names for which no word was read yet. -/
  names : Nat
  /-- The characters that would be dropped at the end, last first. -/
  pending : Pattern := []
  /-- A divider that is no blank may still be dropped. -/
  spare : Bool := false

namespace Reading

/-- One more character, which may divide words unless it is quoted. -/
def step (dividers : List Char) (r : Reading) (c : Char × Bool) : Reading :=
  let isDivider := !c.2 && dividers.contains c.1
  let isBlank := isDivider && isDividingBlank c.1
  let d := r.division
  if r.names = 0 then
    if isBlank then { r with pending := c :: r.pending }
    else
      let keep := !(isDivider && r.spare)
      { r with
        division := if keep then { d with current := c :: (r.pending ++ d.current) } else d
        pending := if keep then [] else c :: r.pending
        spare := false }
  else
    let kept (d : Division) : Reading :=
      { r with division := { d with current := c :: d.current, blank := false } }
    if !isDivider then kept d
    else if d.blank then
      if isBlank then r else { r with division := { d with blank := false } }
    else if isBlank && !d.isOpen then r
    else if r.names = 1 then
      { r with names := 0, pending := [c], spare := isBlank }
    else { r with division := { d.close with blank := isBlank }, names := r.names - 1 }

end Reading

/-- The words of a line for a number of names: quoted characters divide none. -/
def wordsFor (dividers : List Char) (names : Nat) (cs : Pattern) : List String :=
  let r := cs.foldl (Reading.step dividers) { names }
  let d := r.division
  ((if d.isOpen then d.close else d).finished.reverse).map fun p => String.ofList p.chars

end BuildLayout.Shell
