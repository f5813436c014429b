import BuildLayout.Path.Basic

/-! # The normal form of a path

`Path.Normal` is a path with every `.` and `..` resolved: a number of leading `..` (none when it
starts at the root) and a list of names. `Normal.ofComponents` replays components on it, a `..`
taking back the last name. `Path.normalize` reads back-slashes as slashes and writes the normal form
as a text. Nothing here looks at a disk.
-/

namespace BuildLayout.Path

/-- A path whose components are `ups` times `..` and then names. -/
structure Normal where
  absolute : Bool
  ups : Nat
  names : List String
deriving DecidableEq, Repr

namespace Normal

/-- The relative path that goes nowhere. -/
def empty : Normal := ⟨false, 0, []⟩

/-- One component further. A `..` takes back a name, is kept where there is none, and does nothing
at the root. -/
def step (n : Normal) : Component → Normal
  | .root => { n with absolute := true }
  | .here => n
  | .up =>
    if n.names = [] then (if n.absolute then n else { n with ups := n.ups + 1 })
    else { n with names := n.names.dropLast }
  | .name s => { n with names := n.names ++ [s] }

/-- The components replayed from the empty path on. -/
def ofComponents (cs : List Component) : Normal :=
  cs.foldl step empty

/-- The components of a normal form; a relative one that goes nowhere is `.`. -/
def components (n : Normal) : List Component :=
  if n.absolute then .root :: n.names.map .name
  else if n.ups = 0 ∧ n.names = [] then [.here]
  else List.replicate n.ups .up ++ n.names.map .name

/-- The segments of the text of a normal form. -/
def segments (n : Normal) : List String :=
  if n.absolute then "" :: (if n.names = [] then [""] else n.names)
  else if n.ups = 0 ∧ n.names = [] then ["."]
  else List.replicate n.ups ".." ++ n.names

/-- The normal form as a path. -/
def toPath (n : Normal) : Path :=
  ofSegments n.segments

end Normal

/-- The path with slashes for back-slashes. -/
def normalizeSeparators (p : Path) : Path :=
  ⟨String.ofList (p.text.toList.map fun c => if c = '\\' then '/' else c)⟩

/-- The normal form that a path stands for, back-slashes read as slashes. -/
def normal (p : Path) : Normal :=
  Normal.ofComponents p.normalizeSeparators.components

/-- The path in normal form. -/
def normalize (p : Path) : Path :=
  p.normal.toPath

/-- A path taken from a base directory on, unless it is absolute, in normal form. -/
def resolveAgainst (base p : Path) : Path :=
  let p := p.normalizeSeparators
  if p.isAbsolute then p.normalize else (base.join p).normalize

end BuildLayout.Path
