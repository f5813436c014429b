import BuildLayout.Emit.Rule
import BuildLayout.Failure
import BuildLayout.Path.Relative

/-! # From sources to outputs and back

`SourceRoots` is the ordered list of directories that hold sources. A `Translator` holds the
directories of one build. `Translator.matchingRoot?` is the first root with the file below it;
`Translator.outputOf` puts the file at the same place below the output directory, its ending
rewritten; `Translator.inputsOf` lists the sources that may have produced an output. None of them
looks at a disk.
-/

namespace BuildLayout

/-- The directories that hold sources, at least one; of two that hold a file the first counts. -/
structure SourceRoots where
  paths : List Path
  nonempty : paths ≠ [] := by simp
deriving Repr

namespace SourceRoots

/-- The roots of a list, when there are any. -/
def ofList? (paths : List Path) : Option SourceRoots :=
  if h : paths = [] then none else some ⟨paths, h⟩

/-- The roots of the options `rootDir` and `rootDirs`: those of the list in their order, then the
single one unless it is among them. -/
def ofOptions? (rootDir : Option Path) (rootDirs : Option (List Path)) : Option SourceRoots :=
  let listed := rootDirs.getD []
  match rootDir with
  | none => ofList? listed
  | some root => ofList? (if listed.any (·.same root) then listed else listed ++ [root])

end SourceRoots

/-- What is emitted for a source file. -/
structure OutputPaths where
  implementation : Path
  declaration : Option Path
deriving DecidableEq, Repr

/-- The directories and options of a build, as far as they decide where outputs are written. -/
structure Translator where
  /-- Relative roots and directories are taken from here. -/
  basePath : Path
  outDir : Path
  /-- Replaces the declaration ending of the table. -/
  declarationEnding : Option String
  /-- Declarations are emitted. -/
  emitsDeclarations : Bool
  /-- Declarations are written here and not beside the implementation. -/
  declarationDir : Option Path
deriving DecidableEq, Repr

namespace Translator

/-- A declaration ending with its dot. -/
def dotted (ending : String) : String :=
  if ending.toList.head? == some '.' then ending else "." ++ ending

/-- The translator of a build; every directory is put into normal form. -/
def make (basePath outDir : Path) (declarationEnding : Option String) (emitsDeclarations : Bool) :
    Translator :=
  let basePath := basePath.normalize
  { basePath
    outDir := basePath.resolveAgainst outDir
    declarationEnding := declarationEnding.map dotted
    emitsDeclarations
    declarationDir := none }

/-- The same build with declarations written below a directory. -/
def withDeclarationDir (t : Translator) (dir : Path) : Translator :=
  { t with declarationDir := some (t.basePath.resolveAgainst dir) }

/-- The file is below a root but not the root itself; what leads there. -/
def below? (root file : Path) : Option Path :=
  match Path.relativeTo? root file with
  | none => none
  | some relative =>
    if relative.text.isEmpty || relative.isParentRelative then none else some relative

/-- The first root with the file below it, and what leads from there to the file. -/
def matchingRoot? (t : Translator) (roots : SourceRoots) (file : Path) : Option (Path × Path) :=
  roots.paths.findSome? fun root =>
    let root := t.basePath.resolveAgainst root
    (below? root file).map fun relative => (root, relative)

/-- The file is below one of the roots; without roots no file is. -/
def isInSourceRoot (t : Translator) (roots : Option SourceRoots) (file : Path) : Bool :=
  match roots with
  | none => false
  | some roots => (t.matchingRoot? roots file).isSome

/-- The directory part of a relative path. -/
def directoryOf (relative : Path) : Path :=
  relative.parent?.getD ⟨""⟩

/-- The outputs of the file that `relative` leads to, whose name is `name`. -/
def outputsAt (t : Translator) (relative : Path) (name : String) : OutputPaths :=
  let dir := directoryOf relative
  match Emit.roleOf name with
  | .code stem rule =>
    { implementation := (t.outDir.join dir).child (stem ++ rule.implementation)
      declaration :=
        if t.emitsDeclarations then
          some (((t.declarationDir.getD t.outDir).join dir).child
            (stem ++ t.declarationEnding.getD rule.declaration))
        else none }
  | .declaration | .asset => { implementation := t.outDir.join relative, declaration := none }

/-- Where the outputs of a source file are written. The name of the file has to be text, since its
ending is rewritten; a file with another name is refused like one outside the roots. -/
def outputOf (t : Translator) (roots : SourceRoots) (file : Path) : Except Failure OutputPaths :=
  match t.matchingRoot? roots file with
  | none => .error (.noMatchingRoot file.normalize)
  | some (_, relative) =>
    match relative.textName? with
    | none => .error (.noMatchingRoot file.normalize)
    | some name => .ok (t.outputsAt relative name)

/-- What leads to an output from the output directory or, failing that, from the directory of
declarations. -/
def outputBelow? (t : Translator) (output : Path) : Option Path :=
  (t.outDir :: t.declarationDir.toList).findSome? fun dir =>
    (Path.relativeTo? dir output).filter fun relative => !relative.isParentRelative

/-- The names of the sources that are emitted under a name. -/
def sourceNames (name : String) : List String :=
  match Emit.sourcesOf? name with
  | some (stem, endings) => endings.map (stem ++ ·)
  | none => [name]

/-- The sources that may have produced an output, root by root; there are none for an output whose
name is no text. -/
def inputsOf (t : Translator) (roots : SourceRoots) (output : Path) : List Path :=
  match t.outputBelow? output with
  | none => []
  | some relative =>
    match relative.textName? with
    | none => []
    | some name =>
      roots.paths.flatMap fun root =>
        let dir := (t.basePath.resolveAgainst root).join (directoryOf relative)
        (sourceNames name).map dir.child

end Translator

end BuildLayout
