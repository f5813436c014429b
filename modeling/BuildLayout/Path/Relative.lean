import BuildLayout.Path.Normal

/-! # Relative paths

`relativeTo? start target` is the path that leads from the directory `start` to `target`, both taken
in normal form. It is found by walking the two component lists in step (`difference`).
`isWithin root p` says that `p` is `root` or below it.
-/

namespace BuildLayout.Path

/-- What leads from the components `start` to the components `target`; `begun` says that some
component was written already. A `..` of `start` that is not shared cannot be undone, so there is no
answer then; once `target` has ended every component of `start` is climbed. -/
def difference (begun : Bool) : (target start : List Component) → Option (List Component)
  | target, [] => some target
  | [], _ :: start => (difference true [] start).map (.up :: ·)
  | t :: target, s :: start =>
    if !begun && t = s then difference false target start
    else if s = .here then (difference true target start).map (t :: ·)
    else if s = .up then none
    else some (.up :: start.map (fun _ => .up) ++ t :: target)

/-- The path from a directory to a target; `none` when only one of them is absolute, or when the
directory lies above a place that the target does not share. -/
def relativeTo? (start target : Path) : Option Path :=
  let start := start.normal
  let target := target.normal
  if start.absolute ≠ target.absolute then none
  else (difference false target.components start.components).map ofComponents

/-- The path leaves the directory it is taken from: it is absolute or begins with `..`. -/
def isParentRelative (p : Path) : Bool :=
  p.isAbsolute || p.components.head? == some .up

/-- The path is the root or lies below it. -/
def isWithin (root p : Path) : Bool :=
  match relativeTo? root p with
  | some relative => !relative.isParentRelative
  | none => false

end BuildLayout.Path
