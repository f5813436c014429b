import BuildLayout.Failure
import BuildLayout.Json.Cursor
import BuildLayout.Json.Value

/-! # Reports

A `Report` is a failure in the form in which it is shown: a code, a message and, where there are
any, details and a suggestion. `Report.toJson` leaves absent parts out, `Report.ofJson` reads a
report back from an object or from a list of all four parts in order; in both forms `null` stands
for an absent part.
-/

namespace BuildLayout

/-- A failure as it is shown. -/
structure Report where
  code : String
  message : String
  details : Option Json
  suggestion : Option String
deriving Repr

namespace Failure

/-- What a failure is about, field by field. -/
def details? : Failure → Option Json
  | .configNotFound path | .noMatchingRoot path | .outputNotFound path | .alreadyExists path =>
    some (.object [("path", .string path.display)])
  | .malformedConfig path _ => some (.object [("config", .string path.display)])
  | .circularExtends chain => some (.object [("chain", .strings (chain.map Path.display))])
  | .extendsNotFound reference source =>
    some (.object [("config", .string source.display), ("extends", .string reference)])
  | .missingOption option config =>
    some (.object [("config", .string config.display), ("option", .string option.text)])
  | .io (some path) _ => some (.object [("path", .string path.display)])
  | .io none _ | .invalidComponentName _ | .settings _ => none

/-- The report of a failure. -/
def report (f : Failure) : Report :=
  ⟨f.code, f.message, f.details?, f.suggestion?⟩

end Failure

namespace Report

/-- The report as an object; absent parts are left out. -/
def toJson (r : Report) : Json :=
  .object ([("code", .string r.code)] ++ r.details.toList.map (("details", ·)) ++
    [("message", .string r.message)] ++ r.suggestion.toList.map (("suggestion", .string ·)))

/-- The report on one line, and its suggestion on another. -/
def display (r : Report) : String :=
  let line := "[" ++ r.code ++ "] " ++ r.message
  match r.suggestion with
  | none => line
  | some suggestion => line ++ "\nSuggestion: " ++ suggestion

/-- Why a value is no report. -/
inductive Defect where
  | invalidType (found : Json) (expected : String)
  | missingField (name : String)
  | tooShort (length : Nat)
  | tooLong (length : Nat)

/-- The wording of a defect. -/
def Defect.message : Defect → String
  | .invalidType found expected => "invalid type: " ++ found.found ++ ", expected " ++ expected
  | .missingField name => "missing field `" ++ name ++ "`"
  | .tooShort length => s!"invalid length {length}, expected struct ErrorReport with 4 elements"
  | .tooLong length => s!"invalid length {length}, expected fewer elements in array"

/-- A text. -/
def readText : Json → Except Defect String
  | .string s => .ok s
  | v => .error (.invalidType v "a string")

/-- A text or nothing. -/
def readText? : Json → Except Defect (Option String)
  | .null => .ok none
  | v => (readText v).map some

/-- Any value; `null` is nothing. -/
def readAny? : Json → Option Json
  | .null => none
  | v => some v

/-- The parts of a report that were met in an object. -/
structure Parts where
  code : Option String := none
  message : Option String := none
  details : Option Json := none
  suggestion : Option String := none

/-- Reads the fields of an object in order. -/
def readParts (parts : Parts) : List (String × Json) → Except Defect Parts
  | [] => .ok parts
  | (name, v) :: fields => do
    let parts ←
      if name = "code" then (readText v).map fun s => { parts with code := some s }
      else if name = "message" then (readText v).map fun s => { parts with message := some s }
      else if name = "details" then .ok { parts with details := readAny? v }
      else if name = "suggestion" then
        (readText? v).map fun s => { parts with suggestion := s }
      else .ok parts
    readParts parts fields

/-- Reads a report. -/
def ofJson : Json → Except Defect Report
  | .object fields => do
    let parts ← readParts {} fields
    match parts.code, parts.message with
    | none, _ => .error (.missingField "code")
    | some _, none => .error (.missingField "message")
    | some code, some message => .ok ⟨code, message, parts.details, parts.suggestion⟩
  | .array items =>
    match items with
    | [] => .error (.tooShort 0)
    | c :: items => do
      let code ← readText c
      match items with
      | [] => .error (.tooShort 1)
      | m :: items =>
        let message ← readText m
        match items with
        | [] => .error (.tooShort 2)
        | d :: items =>
          match items with
          | [] => .error (.tooShort 3)
          | s :: items =>
            let suggestion ← readText? s
            if items.isEmpty then .ok ⟨code, message, readAny? d, suggestion⟩
            else .error (.tooLong (4 + items.length))
  | v => .error (.invalidType v "struct ErrorReport")

end Report

end BuildLayout
