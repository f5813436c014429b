import BuildLayout.Settings.Value

/-! # Reading records from values

A `Shape` says how a record is read: from a table, or from a list with one item for each field in
order. Entries that no field names are ignored. A `Fault` says what does not fit, where it was given
and under which keys.
-/

namespace BuildLayout.Settings

/-- What does not fit. -/
inductive Problem where
  | invalidType (found expected : String)
  | unknownVariant (found : String) (expected : List String)
  | invalidLength (length : Nat) (expected : String)
  | duplicateField (name : String)
  | missingField (name : String)
deriving DecidableEq, Repr

/-- The wording of a problem. -/
def Problem.text : Problem → String
  | .invalidType found expected => "invalid type: found " ++ found ++ ", expected " ++ expected
  | .unknownVariant found expected =>
    "unknown variant: found `" ++ found ++ "`, expected `" ++
      " or ".intercalate (expected.map fun v => "`" ++ v ++ "`") ++ "`"
  | .invalidLength length expected => s!"invalid length {length}, expected " ++ expected
  | .duplicateField name => "duplicate field `" ++ name ++ "`"
  | .missingField name => "missing field `" ++ name ++ "`"

/-- A problem, the keys that lead to it and where it was given. -/
structure Fault where
  problem : Problem
  key : List String
  origin : Origin
deriving DecidableEq, Repr

namespace Fault

/-- The fault seen from one level further out. -/
def under (key : String) (f : Fault) : Fault := { f with key := key :: f.key }

end Fault

/-- A fault of the value itself. -/
def Value.fault (v : Value) (problem : Problem) : Fault := ⟨problem, [], v.origin⟩

/-- The fault of a value of the wrong kind. -/
def Value.wrongKind (v : Value) (expected : String) : Fault :=
  v.fault (.invalidType v.found expected)

/-- Moves the fault of a part one level out. -/
def below {α : Type} (key : String) : Except Fault α → Except Fault α
  | .ok a => .ok a
  | .error f => .error (f.under key)

/-- A text. -/
def Value.readText : Value → Except Fault String
  | .scalar _ (.text s) => .ok s
  | .scalar _ (.character c) => .ok (String.ofList [c])
  | v => .error (v.wrongKind "a string")

/-- A truth value. -/
def Value.readFlag : Value → Except Fault Bool
  | .scalar _ (.flag b) => .ok b
  | v => .error (v.wrongKind "a boolean")

/-- Texts, the first of which has a given index in its list. -/
def readTextsFrom (index : Nat) : List Value → Except Fault (List String)
  | [] => .ok []
  | v :: vs => do
    let s ← below (toString index) v.readText
    let ss ← readTextsFrom (index + 1) vs
    return s :: ss

/-- A list of texts. -/
def Value.readTexts : Value → Except Fault (List String)
  | .list _ items => readTextsFrom 0 items
  | v => .error (v.wrongKind "a sequence")

/-- One of several names: a text, or a table whose first key is the name. Such a table would have to
hold nothing under that key, which no value is. -/
def Value.readVariant {α : Type} (title : String) (variants : List (String × α)) :
    Value → Except Fault α
  | .scalar o (.text s) =>
    match variants.lookup s with
    | some a => .ok a
    | none => .error ⟨.unknownVariant s (variants.map Prod.fst), [], o⟩
  | .table o [] => .error ⟨.invalidType "map" "enum", [], o⟩
  | .table _ ((key, v) :: _) =>
    match variants.lookup key with
    | some _ => .error ((v.wrongKind "unit").under key)
    | none => .error ((v.fault (.unknownVariant key (variants.map Prod.fst))).under key)
  | v => .error (v.wrongKind title)

/-- A field of a record: its name, other names for it, and how its value is read. -/
structure Field (σ : Type) where
  name : String
  otherNames : List String
  read : σ → Value → Except Fault σ

/-- How a record is read. -/
structure Shape (σ : Type) where
  title : String
  blank : σ
  fields : List (Field σ)
  /-- The fields that a table may leave out. -/
  optional : List String

namespace Shape

variable {σ : Type}

/-- Reads the entries of a table given in `origin`; `seen` holds the fields of those before. -/
def readEntries (shape : Shape σ) (origin : Origin) (seen : List String) (record : σ) :
    List (String × Value) → Except Fault σ
  | [] =>
    match shape.fields.find? fun f => !seen.contains f.name && !shape.optional.contains f.name with
    | some f => .error ⟨.missingField f.name, [], origin⟩
    | none => .ok record
  | (key, v) :: entries =>
    match shape.fields.find? fun f => f.name = key || f.otherNames.contains key with
    | none => readEntries shape origin seen record entries
    | some f =>
      if seen.contains f.name then .error ⟨.duplicateField f.name, [], origin⟩
      else
        match below key (f.read record v) with
        | .error e => .error e
        | .ok record => readEntries shape origin (f.name :: seen) record entries

/-- Reads the items of a list in the order of the fields; `index` counts those before. -/
def readItems (shape : Shape σ) (origin : Origin) (index : Nat) (record : σ) :
    List (Field σ) → List Value → Except Fault σ
  | [], _ => .ok record
  | _ :: _, [] =>
    let n := shape.fields.length
    let elements := if n = 1 then " element" else " elements"
    .error ⟨.invalidLength index (shape.title ++ s!" with {n}" ++ elements), [], origin⟩
  | f :: fields, v :: vs =>
    match below (toString index) (f.read record v) with
    | .error e => .error e
    | .ok record => readItems shape origin (index + 1) record fields vs

/-- Reads a record. -/
def read (shape : Shape σ) : Value → Except Fault σ
  | .table o entries => shape.readEntries o [] shape.blank entries
  | .list o items => shape.readItems o 0 shape.blank shape.fields items
  | v => .error (v.wrongKind shape.title)

end Shape

end BuildLayout.Settings
