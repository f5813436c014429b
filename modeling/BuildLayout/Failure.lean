import BuildLayout.Path.Basic

/-! # Failures

`Failure` lists every cause for which a request about a project is refused. Each cause has a wording
(`message`), a stable code (`code`) and, where the user can do something about it, a hint
(`suggestion?`). A cause may be raised with any texts; paths are worded as they are printed.
-/

namespace BuildLayout

/-- A compiler option that an operation cannot do without, as it is called. -/
structure RequiredOption where
  text : String
deriving DecidableEq, Repr

namespace RequiredOption

def outDir : RequiredOption := ⟨"outDir"⟩

/-- Either of two options that set source roots. -/
def sourceRoots : RequiredOption := ⟨"rootDir or rootDirs"⟩

end RequiredOption

/-- What is said of an operation that the operating system refused. -/
inductive Refusal where
  /-- The words of the system, which stand behind the path that the operation was for. -/
  | reason (words : String)
  /-- A wording of its own. -/
  | message (text : String)
deriving DecidableEq, Repr

instance : Coe String Refusal := ⟨.reason⟩

/-- The wording of a refusal of an operation for a path. -/
def Refusal.text (path : Option Path) : Refusal → String
  | .reason words =>
    match path with
    | some path => path.display ++ ": " ++ words
    | none => words
  | .message text => text

/-- Why a request is refused. -/
inductive Failure where
  /-- No configuration file governs the path. -/
  | configNotFound (path : Path)
  /-- The configuration file cannot be read as one. -/
  | malformedConfig (path : Path) (reason : String)
  /-- A configuration file extends itself through the files of the chain. -/
  | circularExtends (chain : List Path)
  /-- A reference of the configuration file `source` leads to no file. -/
  | extendsNotFound (reference : String) (source : Path)
  /-- The configuration does not set an option that is needed. -/
  | missingOption (option : RequiredOption) (config : Path)
  /-- The file lies in no source root. -/
  | noMatchingRoot (path : Path)
  /-- The compiled file is not there. -/
  | outputNotFound (path : Path)
  /-- The name cannot be that of a component. -/
  | invalidComponentName (name : String)
  /-- A file would be overwritten. -/
  | alreadyExists (path : Path)
  /-- The settings cannot be loaded. -/
  | settings (reason : String)
  /-- The operating system refused an operation. -/
  | io (path : Option Path) (refusal : Refusal)
deriving DecidableEq, Repr

namespace Failure

/-- The wording of a failure. -/
def message : Failure → String
  | .configNotFound path => "tsconfig not found for " ++ path.display
  | .malformedConfig path reason => "Failed to parse " ++ path.display ++ ": " ++ reason
  | .circularExtends chain =>
    "Circular extends dependency detected: " ++ " -> ".intercalate (chain.map Path.display)
  | .extendsNotFound reference source =>
    "Extended configuration '" ++ reference ++ "' not found (referenced from " ++ source.display ++ ")"
  | .missingOption option config => option.text ++ " not specified in " ++ config.display
  | .noMatchingRoot path => "File not in srcDir: " ++ path.display
  | .outputNotFound path => "Output file could not be found: " ++ path.display
  | .invalidComponentName name =>
    "Could not create Component with name '" ++ name ++ "' - not a valid name for a component"
  | .alreadyExists path => "File already exists: " ++ path.display
  | .settings reason => "Configuration error: " ++ reason
  | .io path refusal => "I/O error: " ++ refusal.text path

/-- The code of a failure. -/
def code : Failure → String
  | .configNotFound _ => "E2000"
  | .malformedConfig _ _ => "E2001"
  | .circularExtends _ => "E2002"
  | .extendsNotFound _ _ => "E2003"
  | .missingOption _ _ => "E2004"
  | .noMatchingRoot _ => "E2005"
  | .outputNotFound _ => "E2006"
  | .invalidComponentName _ => "E2007"
  | .alreadyExists _ => "E2008"
  | .settings _ => "E2009"
  | .io _ _ => "E2010"

/-- What the user can do about a failure. -/
def suggestion? : Failure → Option String
  | .configNotFound _ =>
    some ("Open a file that belongs to an Airship TypeScript project " ++
      "(a directory with a tsconfig.json above it)")
  | .missingOption _ _ => some "Add the option to compilerOptions in tsconfig.json"
  | .noMatchingRoot _ =>
    some ("Only files under the rootDir or rootDirs declared in tsconfig.json " ++
      "have compiled output")
  | .outputNotFound _ =>
    some ("The output file for this TypeScript source file could not be found, " ++
      "make sure the unity editor is running the TypeScript compiler and try again.")
  | .invalidComponentName _ =>
    some "Use letters, digits, '.', '-' or '_' only, e.g. SpinnerComponent"
  | _ => none

end Failure

end BuildLayout
