import BuildLayout.Disk.Basic

/-! # Which compiler is run

A workspace may have a compiler installed among its packages; it is preferred to the one on the
search path. A development build of the compiler is only looked for on the search path.
-/

namespace BuildLayout

/-- How the compiler is started. -/
structure CompilerCommand where
  /-- The arguments passed to the compiler. -/
  parameters : List String
  /-- The development build of the compiler is run. -/
  development : Bool
deriving DecidableEq, Repr

/-- One run of the compiler. -/
structure Invocation where
  program : Path
  args : List String
  workingDir : Path
  /-- The program is the one installed in the workspace. -/
  localInstall : Bool
deriving DecidableEq, Repr

namespace Invocation

/-- The compiler on the search path. -/
def programName : String := "utsc"

/-- The development build of the compiler on the search path. -/
def developmentName : String := "utsc-dev"

/-- The compiler installed in a workspace. -/
def localInstallPath (workspace : Path) : Path :=
  ((workspace.child "node_modules").child ".bin").child programName

/-- The workspace has a compiler of its own. -/
def isCompilable (d : Disk) (workspace : Path) : Bool :=
  d.isFile (localInstallPath workspace)

/-- The run of the compiler for a workspace. -/
def ofWorkspace (d : Disk) (workspace : Path) (command : CompilerCommand) : Invocation :=
  let installed := !command.development && isCompilable d workspace
  { program :=
      if command.development then ⟨developmentName⟩
      else if installed then localInstallPath workspace
      else ⟨programName⟩
    args := command.parameters
    workingDir := workspace
    localInstall := installed }

/-- The program and its arguments with spaces between them. -/
def display (i : Invocation) : String :=
  " ".intercalate (i.program.display :: i.args)

end Invocation

end BuildLayout
