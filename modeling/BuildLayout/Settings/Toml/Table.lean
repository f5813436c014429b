import BuildLayout.Settings.Value

/-! # Tables of a TOML document

A table is built up by lines that may lie far apart: by headers, by lists of tables and by dotted
keys. `Form` remembers how a table came about, and with it which lines may still add to it. No line
may give a key of a table a second time (`put?`), and no header a table (`openTable?`).
-/

namespace BuildLayout.Settings.Toml

/-- How a table came about. -/
inductive Form where
  /-- By a header or braces of its own. -/
  | written
  /-- By the header of a table inside it. -/
  | implied
  /-- By a dotted key. -/
  | dotted
deriving DecidableEq, Repr

/-- What a key of a table leads to. -/
inductive Entry where
  | value (v : Value)
  | table (form : Form) (entries : List (String × Entry))
  | tables (items : List (List (String × Entry)))

/-- The entries of a table, each key once. -/
abbrev Entries := List (String × Entry)

namespace Entries

/-- Gives a key a new entry. -/
def set (es : Entries) (key : String) (e : Entry) : Entries :=
  es.filter (·.1 ≠ key) ++ [(key, e)]

/-- Changes the table that keys lead to, of a list of tables the last one. Tables that are missing
on the way are made: by dotted keys when `dotted` says so, else by a header. Dotted keys do not lead
through a table that was written. -/
def descend? (dotted : Bool) (change : Form → Entries → Option Entries) :
    (path : List String) → (form : Form) → Entries → Option Entries
  | [], form, es => change form es
  | key :: path, _, es =>
    match es.lookup key with
    | none =>
      let form := if dotted then .dotted else .implied
      (descend? dotted change path form []).map fun sub => es.set key (.table form sub)
    | some (.value _) => none
    | some (.table form sub) =>
      if dotted && form = .written then none
      else (descend? dotted change path form sub).map fun sub => es.set key (.table form sub)
    | some (.tables items) =>
      (descend? dotted change path .written (items.getLast?.getD [])).map fun sub =>
        es.set key (.tables (items.dropLast ++ [sub]))

/-- Gives a new key a value. A dotted key ends in a table made by dotted keys alone. -/
def put? (es : Entries) (path : List String) (v : Value) : Option Entries :=
  match path.getLast? with
  | none => none
  | some key =>
    let above := path.dropLast
    descend? true (fun form es =>
      if (form = .dotted) ↔ (above = []) then none
      else if (es.lookup key).isSome then none
      else some (es.set key (.value v))) above .written es

/-- Opens the table of a header. -/
def openTable? (es : Entries) (path : List String) : Option Entries :=
  match path.getLast? with
  | none => none
  | some key =>
    descend? false (fun _ es =>
      match es.lookup key with
      | none => some (es.set key (.table .written []))
      | some (.table .implied sub) => some (es.set key (.table .written sub))
      | some _ => none) path.dropLast .written es

/-- Opens a new table at the end of a list of tables. -/
def openItem? (es : Entries) (path : List String) : Option Entries :=
  match path.getLast? with
  | none => none
  | some key =>
    descend? false (fun _ es =>
      match es.lookup key with
      | none => some (es.set key (.tables [[]]))
      | some (.tables items) => some (es.set key (.tables (items ++ [[]])))
      | some _ => none) path.dropLast .written es

/-- Gives a new key a value in the table that the last header opened. -/
def putIn? (es : Entries) (opened path : List String) (v : Value) : Option Entries :=
  descend? false (fun _ es => es.put? path v) opened .written es

end Entries

/-! ## Values -/

/-- A table below the document that has this key stands for the value under it. -/
def standInKey : String := "___figment_value_value"

/-- A whole number under this key of a table below the document says where a value was given; the
document itself says so, and the entry is passed over. -/
def originKey : String := "___figment_value_id"

/-- A whole number. -/
def isWhole : Value → Bool
  | .scalar _ (.signed _) => true
  | _ => false

/-- What a table with these entries stands for. -/
def tableValue? (entries : List (String × Value)) : Option Value :=
  if (entries.lookup originKey).all isWhole then
    match entries.lookup standInKey with
    | some v => some v
    | none => some (.table .file (Value.sortEntries (entries.filter (·.1 ≠ originKey))))
  else none

mutual

/-- An entry as a value. -/
def Entry.toValue? : Entry → Option Value
  | .value v => some v
  | .table _ es => (Entries.toValues? es).bind tableValue?
  | .tables items => (Entries.toTables? items).map (.list .file)

/-- The entries of a table as values. -/
def Entries.toValues? : Entries → Option (List (String × Value))
  | [] => some []
  | (key, e) :: es => do
    let v ← e.toValue?
    let vs ← Entries.toValues? es
    return (key, v) :: vs

/-- Tables as values. -/
def Entries.toTables? : List Entries → Option (List Value)
  | [] => some []
  | es :: rest => do
    let entries ← Entries.toValues? es
    let v ← tableValue? entries
    let vs ← Entries.toTables? rest
    return v :: vs

end

/-- A table in braces as a value. -/
def Entries.toValue? (es : Entries) : Option Value := (Entries.toValues? es).bind tableValue?

/-- A whole document as a value. -/
def Entries.toDocument? (es : Entries) : Option Value :=
  (Entries.toValues? es).map fun entries => .table .file (Value.sortEntries entries)

end BuildLayout.Settings.Toml
