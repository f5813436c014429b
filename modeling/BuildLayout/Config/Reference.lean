import BuildLayout.Disk.Basic
import BuildLayout.Path.Normal

/-! # What an `extends` reference leads to

A reference that starts with `./` or `../`, or is absolute, is taken from the directory of the file
that holds it. Any other one names something in a `node_modules` directory, looked for in that
directory and upwards: a file, or a package with a `tsconfig.json`. A file that is not there as
written is looked for with `.json` at its end.
-/

namespace BuildLayout.Reference

/-- The name of a configuration file. -/
def configName : String := "tsconfig.json"

/-- The directory that holds packages. -/
def packagesName : String := "node_modules"

/-- The reference is taken from the directory of the file that holds it. -/
def isRelative (reference : String) : Bool :=
  ["./", "../", ".\\", "..\\"].any fun start => start.toList.isPrefixOf reference.toList

/-- The file at a path, or else the one with `.json` at its end. -/
def file? (d : Disk) (candidate : Path) : Option Path :=
  if d.isFile candidate then some candidate
  else if candidate.hasExtension "json" then none
  else
    let withEnding := candidate.append ".json"
    if d.isFile withEnding then some withEnding else none

/-- What a package name leads to from one directory. -/
def packageIn? (d : Disk) (name dir : Path) : Option Path :=
  let candidate := (dir.child packagesName).join name
  match file? d candidate with
  | some found => some found
  | none =>
    let inside := candidate.child configName
    if d.isFile inside then some inside else none

/-- The file that a reference in a file of the directory `dir` leads to. -/
def resolve? (d : Disk) (dir : Path) (reference : String) : Option Path :=
  let name := Path.normalizeSeparators ⟨reference⟩
  if isRelative reference || name.isAbsolute then file? d (dir.resolveAgainst name)
  else dir.ancestors.findSome? (packageIn? d name)

end BuildLayout.Reference
