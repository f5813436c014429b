import BuildLayout.Config.Jsonc
import BuildLayout.Failure
import BuildLayout.Json.Record
import BuildLayout.Text.Utf8

/-! # What one configuration file declares

`Declared` is the content of a single `tsconfig.json`: the files that it extends and the compiler
options that decide where output is written. `Declared.ofText` reads it from JSON with comments, an
empty text declaring nothing; `Declared.ofBytes` reads it from the bytes of a file.
-/

namespace BuildLayout

/-- The compiler options of one file, as they are written there. -/
structure DeclaredOptions where
  rootDir : Option String := none
  rootDirs : Option (List String) := none
  outDir : Option String := none
  declaration : Option Bool := none
  declarationDir : Option String := none
  /-- Turns declarations on where `declaration` does not say otherwise. -/
  composite : Option Bool := none
deriving DecidableEq, Repr

/-- The content of one configuration file. -/
structure Declared where
  /-- References to the files that it extends; later ones override earlier ones. -/
  references : Option (List String) := none
  options : Option DeclaredOptions := none
deriving DecidableEq, Repr

namespace DeclaredOptions

/-- How compiler options are read. -/
def shape : Json.Shape DeclaredOptions where
  title := "struct CompilerOptions"
  blank := {}
  members := [
    .text "rootDir" fun o v => { o with rootDir := some v },
    .texts "rootDirs" fun o v => { o with rootDirs := some v },
    .text "outDir" fun o v => { o with outDir := some v },
    .flag "declaration" fun o v => { o with declaration := some v },
    .text "declarationDir" fun o v => { o with declarationDir := some v },
    .flag "composite" fun o v => { o with composite := some v }]

end DeclaredOptions

namespace Declared

/-- The references that a value stands for: one text, or a list of texts. -/
def referencesOf? : Json → Option (List String)
  | .string s => some [s]
  | .array items => items.mapM fun
    | .string s => some s
    | _ => none
  | _ => none

/-- Reads the references of a file. -/
def readReferences (levels : Nat) (c : Json.Cursor) : Json.Outcome c (List String) :=
  match Json.readValue levels c with
  | .error f => .error f
  | .ok s =>
    .ok (s.map fun v =>
      match referencesOf? v with
      | some references => .ok references
      | none => .error (.noAlternative "Extends"))

/-- How a configuration file is read. -/
def shape : Json.Shape Declared where
  title := "struct TsConfig"
  blank := {}
  members := [
    ⟨"extends", fun levels =>
      Json.readOptional (readReferences levels) fun d v => { d with references := some v }⟩,
    ⟨"compilerOptions", fun levels =>
      Json.readOptional (Json.fitting (Json.readRecord DeclaredOptions.shape levels))
        fun d v => { d with options := some v }⟩]

/-- The text without the mark that may stand before it. -/
def withoutMark : List Char → List Char
  | '\uFEFF' :: cs => cs
  | cs => cs

/-- What the text of a file declares. -/
def ofText (text : String) : Except Json.Fault Declared :=
  let json := Jsonc.toJson (withoutMark text.toList)
  if json.all Text.isBlank then .ok {} else Json.parseRecord shape json

/-- What a file with these bytes declares; the path stands in the failure. -/
def ofBytes (path : Path) (bytes : Text.Bytes) : Except Failure Declared :=
  match Text.decode bytes with
  | .error f => .error (.malformedConfig path ("invalid UTF-8: " ++ f.message))
  | .ok text =>
    match ofText text with
    | .error f => .error (.malformedConfig path f.message)
    | .ok declared => .ok declared

end Declared

end BuildLayout
