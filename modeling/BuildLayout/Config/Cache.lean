import BuildLayout.Config.Search

/-! # Remembering configurations

A `Cache` remembers which configuration file was found for a directory and what a configuration file
merges to. `Cache.find` and `Cache.resolve` answer from it where they can and extend it;
`Cache.invalidate` drops what may depend on a file that changed. Paths are compared by their
components.
-/

namespace BuildLayout

/-- What was found and merged so far. -/
structure Cache where
  /-- For a directory, the nearest configuration file at or above it. -/
  nearest : List (Path × Path) := []
  /-- For a configuration file, what it merges to. -/
  resolved : List (Path × Configuration) := []
deriving Repr

namespace Cache

/-- The entry of a path. -/
def get? {α : Type} (entries : List (Path × α)) (p : Path) : Option α :=
  (entries.find? (·.1.same p)).map Prod.snd

/-- The entries with one for a path, in place of the one it had. -/
def insert {α : Type} (entries : List (Path × α)) (p : Path) (value : α) : List (Path × α) :=
  (p, value) :: entries.filter fun e => !e.1.same p

/-- Nothing is remembered. -/
def isEmpty (c : Cache) : Bool := c.nearest.isEmpty && c.resolved.isEmpty

/-- Remembers the same configuration file for several directories. -/
def addNearest (c : Cache) (dirs : List Path) (config : Path) : Cache :=
  { c with nearest := dirs.foldl (fun entries dir => insert entries dir config) c.nearest }

/-- Looks through directories for a configuration file, remembered or on the disk; `passed` are the
directories without one so far. -/
def search (d : Disk) (c : Cache) (passed : List Path) : List Path → Option Path × Cache
  | [] => (none, c)
  | dir :: dirs =>
    match get? c.nearest dir with
    | some config => (some config, c.addNearest passed config)
    | none =>
      let candidate := Configuration.candidateIn dir
      if d.isFile candidate then (some candidate, c.addNearest (dir :: passed) candidate)
      else search d c (passed ++ [dir]) dirs

/-- The nearest configuration file at or above the directory of a file. -/
def find (d : Disk) (c : Cache) (file : Path) : Except Failure Path × Cache :=
  match search d c [] (Configuration.searchDirs file) with
  | (some config, c) => (.ok config, c)
  | (none, c) => (.error (.configNotFound file.normalize), c)

/-- The configuration that governs a file. -/
def resolve (d : Disk) (c : Cache) (file : Path) : Except Failure Configuration × Cache :=
  match find d c file with
  | (.error f, c) => (.error f, c)
  | (.ok config, c) =>
    match get? c.resolved config with
    | some known => (.ok known, c)
    | none =>
      match Configuration.load d config with
      | .error f => (.error f, c)
      | .ok loaded => (.ok loaded, { c with resolved := insert c.resolved config loaded })

/-- The entry for a directory may change when the file at `changed` does: it is the one found, or it
has the name of a configuration file and lies in that directory or above it. -/
def dependsOn (changed : Path) (entry : Path × Path) : Bool :=
  entry.2.same changed ||
    (changed.fileName? == some Reference.configName &&
      changed.parent?.any fun dir => Path.isWithin dir entry.1)

/-- Drops the entries that may change when the file at a path does. -/
def invalidate (c : Cache) (changed : Path) : Cache :=
  let changed := changed.normalize
  { nearest := c.nearest.filter fun e => !dependsOn changed e
    resolved := c.resolved.filter fun e => !e.2.sourceFiles.any (·.same changed) }

end Cache

end BuildLayout
