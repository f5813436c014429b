import BuildLayout.Config.Options
import BuildLayout.Config.Reference
import BuildLayout.Emit.Translator

/-! # Loading a configuration

`Configuration.load` reads a configuration file with everything that it extends and merges the
options: those of the extended files in order, then the file's own. The walk carries the `ancestry`,
the files that are being loaded; a file that extends one of them is refused, while a file that is
reached twice on different branches is not. The walk ends because every file it enters joins the
ancestry, and there are only so many files on a disk (`Disk.unvisited`).
-/

namespace BuildLayout

namespace Disk

/-- The nodes of the disk that are not at one of the given locations. -/
def unvisited (d : Disk) (visited : List Location) : List (Location × Node) :=
  d.nodes.filter fun n => !visited.contains n.1

theorem mem_nodes_of_bytesAt? {d : Disk} {location : Location} {bytes : Text.Bytes}
    (h : d.bytesAt? location = some bytes) : ∃ node, (location, node) ∈ d.nodes := by
  unfold bytesAt? node? at h
  split at h
  · next bytes' executable hn =>
    split at hn
    · cases hn
    · obtain ⟨before, after, hl, _⟩ := List.lookup_eq_some_iff.1 hn
      refine ⟨.file bytes' executable, ?_⟩
      rw [hl]
      simp
  · cases h

/-- Visiting one more location leaves the nodes that are somewhere else. -/
theorem unvisited_cons (d : Disk) (location : Location) (visited : List Location) :
    d.unvisited (location :: visited) = (d.unvisited visited).filter (·.1 ≠ location) := by
  unfold unvisited
  rw [List.filter_filter]
  congr 1
  funext n
  simp

/-- Visiting one more file leaves fewer. -/
theorem length_unvisited_cons_lt {d : Disk} {location : Location} {visited : List Location}
    {bytes : Text.Bytes} (h : d.bytesAt? location = some bytes) (hv : location ∉ visited) :
    (d.unvisited (location :: visited)).length < (d.unvisited visited).length := by
  obtain ⟨node, hn⟩ := mem_nodes_of_bytesAt? h
  rw [unvisited_cons, List.length_filter_lt_length_iff_exists]
  refine ⟨(location, node), ?_, by simp⟩
  unfold unvisited
  simp [hn, hv]

end Disk

/-- The merged configuration of a project. -/
structure Configuration where
  /-- The configuration file itself, not one that it extends. -/
  configFilePath : Path
  rootDir : Option Path
  rootDirs : Option (List Path)
  outDir : Option Path
  declaration : Bool
  declarationDir : Option Path
  /-- The files that were read, the configuration file first. -/
  sourceFiles : List Path
deriving DecidableEq, Repr

namespace Configuration

/-- The options merged so far and the files read so far, in order. -/
structure Loaded where
  options : Options
  files : List Path
deriving DecidableEq, Repr

/-- The files with one more at the end, unless it is among them. -/
def addFile (files : List Path) (path : Path) : List Path :=
  if files.any (·.same path) then files else files ++ [path]

mutual

/-- Loads the file at a path with what it extends. `files` are those read before; of the result the
options are those of this file alone. -/
def loadFile (d : Disk) (ancestry : List Location) (files : List Path) (path : Path) :
    Except Failure Loaded :=
  match d.locate true path with
  | .error e => .error (.io (some path) e.text)
  | .ok location =>
    if hv : location ∈ ancestry then
      .error (.circularExtends ((ancestry.reverse ++ [location]).map Disk.pathOf))
    else
      match hb : d.bytesAt? location with
      | none => .error (.io (some path) OsError.isDirectory.text)
      | some bytes =>
        match Declared.ofBytes path bytes with
        | .error f => .error f
        | .ok declared =>
          have := Disk.length_unvisited_cons_lt hb hv
          let dir := path.parentOrRoot
          match loadReferences d (location :: ancestry) path dir ⟨{}, addFile files path⟩
              (declared.references.getD []) with
          | .error f => .error f
          | .ok loaded =>
            match declared.options with
            | none => .ok loaded
            | some o =>
              .ok { loaded with options := loaded.options.override (Options.ofDeclared dir o) }
termination_by ((d.unvisited ancestry).length, 0)

/-- Loads the files that references of the file at `path` lead to, each over those before it. -/
def loadReferences (d : Disk) (ancestry : List Location) (path dir : Path) (loaded : Loaded)
    (references : List String) : Except Failure Loaded :=
  match references with
  | [] => .ok loaded
  | reference :: rest =>
    match Reference.resolve? d dir reference with
    | none => .error (.extendsNotFound reference path)
    | some parent =>
      match loadFile d ancestry loaded.files parent with
      | .error f => .error f
      | .ok upper =>
        loadReferences d ancestry path dir ⟨loaded.options.override upper.options, upper.files⟩ rest
termination_by ((d.unvisited ancestry).length, references.length + 1)

end

/-- The configuration of the file at a path. -/
def load (d : Disk) (path : Path) : Except Failure Configuration :=
  let path := path.normalize
  match loadFile d [] [] path with
  | .error f => .error f
  | .ok loaded =>
    .ok {
      configFilePath := path
      rootDir := loaded.options.rootDir
      rootDirs := loaded.options.rootDirs
      outDir := loaded.options.outDir
      declaration := loaded.options.emitsDeclarations
      declarationDir := loaded.options.declarationDir
      sourceFiles := loaded.files }

/-- The directory of the configuration file; relative paths are taken from here. -/
def basePath (c : Configuration) : Path :=
  c.configFilePath.parentOrRoot

/-- The source roots, when the configuration sets any. -/
def sourceRoots? (c : Configuration) : Option SourceRoots :=
  SourceRoots.ofOptions? c.rootDir c.rootDirs

/-- The output directory, which has to be set. -/
def requireOutDir (c : Configuration) : Except Failure Path :=
  match c.outDir with
  | some dir => .ok dir
  | none => .error (.missingOption .outDir c.configFilePath)

/-- The source roots, which have to be set. -/
def requireSourceRoots (c : Configuration) : Except Failure SourceRoots :=
  match c.sourceRoots? with
  | some roots => .ok roots
  | none => .error (.missingOption .sourceRoots c.configFilePath)

/-- The translator of a build into a directory, with the directory of declarations that the
configuration sets. -/
def translatorInto (c : Configuration) (outDir : Path) : Translator :=
  let t := Translator.make c.basePath outDir none c.declaration
  match c.declarationDir with
  | some dir => t.withDeclarationDir dir
  | none => t

/-- The translator of a build into the output directory. -/
def translator (c : Configuration) : Except Failure Translator :=
  match c.requireOutDir with
  | .ok dir => .ok (c.translatorInto dir)
  | .error f => .error f

end Configuration

end BuildLayout
