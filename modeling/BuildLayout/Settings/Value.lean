import BuildLayout.Number.Shortest
import BuildLayout.Text.Quoted

/-! # Values of settings

A settings file and environment variables give values of any kind. A `Value` remembers with each
part where it was given. `Value.merge` lays one value over another: tables are merged key by key,
everything else is replaced.
-/

namespace BuildLayout.Settings

/-- Where a value was given. -/
inductive Origin where
  | default
  | file
  | environment
deriving DecidableEq, Repr

/-- A value without parts. -/
inductive Scalar where
  | text (s : String)
  | character (c : Char)
  | flag (b : Bool)
  | signed (i : Int)
  | unsigned (n : Nat)
  | real (x : Binary64)
  | infinite (negative : Bool)
  | notANumber
deriving DecidableEq, Repr

/-- A value of any kind. The entries of a table are sorted by key, each key once. -/
inductive Value where
  | scalar (origin : Origin) (s : Scalar)
  | list (origin : Origin) (items : List Value)
  | table (origin : Origin) (entries : List (String × Value))
deriving BEq, Repr

namespace Value

/-- Where the value itself was given. -/
def origin : Value → Origin
  | .scalar o _ | .list o _ | .table o _ => o

/-- Puts an entry at its place in entries sorted by key, in place of an earlier one. -/
def insert (key : String) (value : Value) : List (String × Value) → List (String × Value)
  | [] => [(key, value)]
  | (k, v) :: entries =>
    if key < k then (key, value) :: (k, v) :: entries
    else if key = k then (key, value) :: entries
    else (k, v) :: insert key value entries

/-- The entries in order, the later of two with one key. -/
def sortEntries (entries : List (String × Value)) : List (String × Value) :=
  entries.foldl (fun es e => insert e.1 e.2 es) []

mutual

/-- The value `upper` over the value `lower`. -/
def merge (lower : Value) : (upper : Value) → Value
  | .table o entries =>
    match lower with
    | .table _ below => .table o (mergeEntries below entries)
    | _ => .table o entries
  | .list o items => .list o items
  | .scalar o s => .scalar o s

/-- Entries over those of the table below. -/
def mergeEntries (below : List (String × Value)) : List (String × Value) → List (String × Value)
  | [] => below
  | (key, value) :: entries =>
    let merged := match below.lookup key with
      | some lower => merge lower value
      | none => value
    mergeEntries (insert key merged below) entries

end

/-- A table with one value below a chain of keys. -/
def nest (origin : Origin) (value : Value) : List String → Value
  | [] => value
  | key :: keys => .table origin [(key, nest origin value keys)]

end Value

/-- What a scalar that was found in place of another value is called. -/
def Scalar.found : Scalar → String
  | .text s => "string " ++ Text.quoted s
  | .character c => "string " ++ Text.quoted (String.ofList [c])
  | .flag b => if b then "bool true" else "bool false"
  | .signed i => "signed int `" ++ toString i ++ "`"
  | .unsigned n => "unsigned int `" ++ toString n ++ "`"
  | .real x => "float `" ++ x.toPlainText ++ "`"
  | .infinite negative => if negative then "float `-inf`" else "float `inf`"
  | .notANumber => "float `NaN`"

/-- What a value that was found in place of another is called. -/
def Value.found : Value → String
  | .scalar _ s => s.found
  | .list _ _ => "sequence"
  | .table _ _ => "map"

end BuildLayout.Settings
