import BuildLayout.Text.Pieces
import BuildLayout.Text.Stray

/-! # Paths

A `Path` is the text of a path, kept as it was written. What it means is its list of `components`:
empty segments and `.` segments count for nothing, except that a leading `.` of a relative path is a
component of its own. Two paths are the same place (`Path.same`) when their components are equal.

`join`, `parent?`, `fileName?` and `ancestors` work on components but keep the text they leave
untouched.

A path need not be Unicode text. A byte that belongs to no character is kept in it as a name keeps it
(`Text.mark`); the path is then no text, nor is the name that holds the byte (`isText`, `textName?`).
Only text is given to a compiler's table of endings, and only text becomes a value of JSON. Three
functions ask for it: the outputs of a source and the sources of an output need a name that is text,
and separators are exchanged in text only. The last is not kept up here: `normalizeSeparators` reads
every back-slash as a slash, also in a path that is no text, where a back-slash should stay part of a
name. Such paths with back-slashes are left out of what is said about paths.
-/

namespace BuildLayout

/-- The text of a path. -/
structure Path where
  text : String
deriving DecidableEq, Repr, Inhabited

/-- One step of a path. -/
inductive Path.Component where
  | root
  | here
  | up
  | name (s : String)
deriving DecidableEq, Repr

namespace Path

/-- The text of a component. -/
def Component.text : Component → String
  | .root => "/"
  | .here => "."
  | .up => ".."
  | .name s => s

/-- What a segment after the first contributes. -/
def Component.ofSegment? (s : String) : Option Component :=
  if s = "" ∨ s = "." then none
  else if s = ".." then some .up
  else some (.name s)

/-- The segments of the text, between slashes. -/
def segments (p : Path) : List String :=
  (Text.splitOn '/' p.text.toList).map String.ofList

/-- The path with the given segments. -/
def ofSegments (segments : List String) : Path :=
  ⟨String.ofList (Text.joinWith '/' (segments.map String.toList))⟩

/-- The path starts at the root. -/
def isAbsolute (p : Path) : Bool :=
  p.text.toList.head? == some '/'

/-- The components that a list of segments after the first contributes. -/
def body (segments : List String) : List Component :=
  segments.filterMap Component.ofSegment?

/-- The components of a path. -/
def components (p : Path) : List Component :=
  match p.segments with
  | [] => []
  | first :: rest =>
    if p.isAbsolute then .root :: body rest
    else if first = "." then .here :: body rest
    else body (first :: rest)

/-- The two paths have the same components. -/
def same (p q : Path) : Bool :=
  p.components == q.components

/-- The path whose text is the components with slashes between them. -/
def join (p q : Path) : Path :=
  if q.isAbsolute then q
  else if p.text.isEmpty || p.text.toList.getLast? == some '/' then ⟨p.text ++ q.text⟩
  else ⟨p.text ++ "/" ++ q.text⟩

/-- The path `q` taken from `p` on, for a `q` given by its text. -/
def child (p : Path) (text : String) : Path :=
  p.join ⟨text⟩

/-- The path that goes through the components one after the other. -/
def ofComponents (cs : List Component) : Path :=
  cs.foldl (fun p c => p.child c.text) ⟨""⟩

/-- The last component, when it is a name. -/
def fileName? (p : Path) : Option String :=
  match p.components.getLast? with
  | some (.name s) => some s
  | _ => none

/-- Every byte of the path belongs to a character. -/
def isText (p : Path) : Bool := Text.isText p.text

/-- The file name, when it is text. -/
def textName? (p : Path) : Option String :=
  p.fileName?.filter Text.isText

/-- The path as it is printed. -/
def display (p : Path) : String := Text.shown p.text

/-- A segment that contributes nothing after the first. -/
def isIdle (s : String) : Bool :=
  s == "" || s == "."

/-- Segments, last first, without their last component and the idle ones around it; `none` when
there is no component. -/
def dropLastComponent (reversed : List String) : Option (List String) :=
  match reversed.dropWhile isIdle with
  | [] => none
  | _ :: init => some (init.dropWhile isIdle).reverse

/-- The path without its last component; `none` for the root and the empty path. -/
def parent? (p : Path) : Option Path :=
  match p.segments with
  | [] => none
  | first :: rest =>
    if p.isAbsolute then
      match dropLastComponent rest.reverse with
      | none => none
      | some [] => some ⟨"/"⟩
      | some init => some (ofSegments (first :: init))
    else if first = "." then
      match dropLastComponent rest.reverse with
      | none => some ⟨""⟩
      | some init => some (ofSegments (first :: init))
    else (dropLastComponent (first :: rest).reverse).map ofSegments

/-- The parent, or the root where there is none. -/
def parentOrRoot (p : Path) : Path :=
  p.parent?.getD ⟨"/"⟩

/-- A path, its parent and so on, at most `n` of them after the path itself. -/
def ancestorsUpTo : Nat → Path → List Path
  | 0, p => [p]
  | n + 1, p =>
    match p.parent? with
    | none => [p]
    | some q => p :: ancestorsUpTo n q

/-- A path, its parent, and so on up to the root or the empty path. Each has a component less than
the one before. -/
def ancestors (p : Path) : List Path :=
  ancestorsUpTo p.components.length p

/-- The file name ends in a dot and the extension, and something stands before the dot; the
extension holds no dot. -/
def hasExtension (p : Path) (extension : String) : Bool :=
  match p.fileName? with
  | none => false
  | some name =>
    match Text.dropSuffix? name ("." ++ extension) with
    | none => false
    | some stem => stem ≠ ""

/-- The path with more text at its end. -/
def append (p : Path) (text : String) : Path :=
  ⟨p.text ++ text⟩

end Path

end BuildLayout
