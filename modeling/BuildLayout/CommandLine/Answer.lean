import BuildLayout.Component.Create
import BuildLayout.Emit.Located
import BuildLayout.Json.Value

/-! # Answers as JSON

How the results of the commands are shown: every part of a result is a field, and a part that is
absent is `null`. `shownPaths` are the paths that a result shows.
-/

namespace BuildLayout

/-- A path as JSON. -/
def Path.toJson (p : Path) : Json := .string p.display

/-- Paths as JSON. -/
def Path.listToJson (ps : List Path) : Json := .array (ps.map toJson)

/-- A path that may be absent, as JSON. -/
def Path.optionToJson : Option Path → Json
  | some p => p.toJson
  | none => .null

/-- The parts of a configuration. -/
def Configuration.fields (c : Configuration) : List (String × Json) := [
  ("configFilePath", c.configFilePath.toJson),
  ("rootDir", Path.optionToJson c.rootDir),
  ("rootDirs", match c.rootDirs with
    | some ps => Path.listToJson ps
    | none => .null),
  ("outDir", Path.optionToJson c.outDir),
  ("declaration", .bool c.declaration),
  ("declarationDir", Path.optionToJson c.declarationDir),
  ("sourceFiles", Path.listToJson c.sourceFiles)]

/-- The paths of a configuration. -/
def Configuration.shownPaths (c : Configuration) : List Path :=
  c.configFilePath :: c.rootDir.toList ++ c.rootDirs.getD [] ++ c.outDir.toList ++
    c.declarationDir.toList ++ c.sourceFiles

/-- What is emitted for a file, as JSON. -/
def OutputPaths.toJson (o : OutputPaths) : Json :=
  .ofFields [("implementation", o.implementation.toJson),
    ("declaration", Path.optionToJson o.declaration)]

/-- The parts of an output that was found. -/
def Located.fields (l : Located) : List (String × Json) := [
  ("source", l.source.toJson),
  ("target", .string l.target.name),
  ("configFilePath", l.configFilePath.toJson),
  ("outputs", l.outputs.toJson)]

/-- The paths of an output that was found. -/
def Located.shownPaths (l : Located) : List Path :=
  [l.source, l.configFilePath, l.outputs.implementation] ++ l.outputs.declaration.toList

/-- The parts of a component that was written. -/
def CreatedComponent.fields (c : CreatedComponent) : List (String × Json) := [
  ("path", c.path.toJson),
  ("className", .string c.className),
  ("displayName", .string c.displayName),
  ("kind", .string c.kind.name)]

end BuildLayout
