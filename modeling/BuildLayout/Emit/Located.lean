import BuildLayout.Config.Search

/-! # Outputs on disk

`Located.find` looks for what was emitted for a source file: by the editor's build in the output
directory of the configuration, or by a published build in a directory of its own beside the
configuration file. `Configuration.hasInSource` says whether a file is in a source root at all.
-/

namespace BuildLayout

/-- Which build to look in. -/
inductive Target where
  | editor
  | server
  | client
deriving DecidableEq, Repr

namespace Target

/-- The name of a target. -/
def name : Target → String
  | .editor => "editor"
  | .server => "server"
  | .client => "client"

/-- The target with a name. -/
def ofName? (name : String) : Option Target :=
  [editor, server, client].find? fun t => t.name = name

/-- Where a published build is written. -/
def publishedDir (t : Target) (c : Configuration) : Path :=
  ((c.basePath.child "TypeScript~").child "dist").child t.name

/-- The translator of a build. A published build has its declarations beside the implementation. -/
def translator (t : Target) (c : Configuration) : Except Failure Translator :=
  match c.requireOutDir with
  | .error f => .error f
  | .ok outDir =>
    match t with
    | .editor => .ok (c.translatorInto outDir)
    | .server | .client => .ok (.make c.basePath (t.publishedDir c) none c.declaration)

end Target

/-- An output that was found. -/
structure Located where
  source : Path
  target : Target
  configFilePath : Path
  /-- The implementation is there; the declaration was not looked for. -/
  outputs : OutputPaths
deriving DecidableEq, Repr

namespace Configuration

/-- What was emitted for a file that the configuration governs. -/
def locate (d : Disk) (c : Configuration) (file : Path) (target : Target) :
    Except Failure Located :=
  match target.translator c with
  | .error f => .error f
  | .ok t =>
    match c.requireSourceRoots with
    | .error f => .error f
    | .ok roots =>
      match t.outputOf roots file with
      | .error f => .error f
      | .ok outputs =>
        if d.holds outputs.implementation then .ok ⟨file, target, c.configFilePath, outputs⟩
        else .error (.outputNotFound outputs.implementation)

/-- A file that the configuration governs is below one of its source roots. -/
def hasInSource (c : Configuration) (file : Path) : Bool :=
  (c.translatorInto c.basePath).isInSourceRoot c.sourceRoots? file

end Configuration

namespace Located

/-- What was emitted for a file, given the configuration that governs it. -/
def ofResolved (d : Disk) (resolved : Except Failure Configuration) (file : Path)
    (target : Target) : Except Failure Located :=
  match resolved with
  | .error f => .error f
  | .ok c => c.locate d file target

/-- What was emitted for a file. -/
def find (d : Disk) (file : Path) (target : Target) : Except Failure Located :=
  ofResolved d (Configuration.resolve d file) file target

/-- The file is in a source root, given the configuration that governs it; where there is none it is
not. -/
def isInSourceOf (resolved : Except Failure Configuration) (file : Path) : Bool :=
  match resolved with
  | .error _ => false
  | .ok c => c.hasInSource file

/-- The file is in a source root. -/
def isInSource (d : Disk) (file : Path) : Bool :=
  isInSourceOf (Configuration.resolve d file) file

end Located

end BuildLayout
