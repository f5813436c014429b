import BuildLayout.Settings.Toml.Number
import BuildLayout.Settings.Toml.Table

/-! # TOML documents

`parse?` gives the value of a document: a table. It is `none` when the text is not well formed, when
something is given twice, when values are nested deeper than `maxDepth`, or when a table stands for
no value.
-/

namespace BuildLayout.Settings.Toml

mutual

/-- Reads a value with at most `depth` levels of brackets, in at most `fuel` steps. -/
def value? : (fuel depth : Nat) → List Char → Option (Value × List Char)
  | 0, _, _ => none
  | fuel + 1, depth, cs =>
    match cs with
    | '[' :: cs =>
      if depth = 0 then none
      else (items? fuel (depth - 1) [] cs).map fun (vs, cs) => (.list .file vs, cs)
    | '\x7b' :: cs =>
      if depth = 0 then none
      else
        match skipBlank cs with
        | '\x7d' :: cs => some (.table .file [], cs)
        | cs => (entries? fuel (depth - 1) [] cs).bind fun (es, cs) => es.toValue?.map (·, cs)
    | '"' :: _ | '\'' :: _ => (text? cs).map fun (s, cs) => (.scalar .file (.text s), cs)
    | cs => wordAt? cs

/-- Reads the items of a list up to its bracket; `done` holds those before, last first. -/
def items? : (fuel depth : Nat) → List Value → List Char → Option (List Value × List Char)
  | 0, _, _, _ => none
  | fuel + 1, depth, done, cs =>
    match skipFiller? false cs with
    | none => none
    | some (']' :: cs) => some (done.reverse, cs)
    | some cs =>
      match value? fuel depth cs with
      | none => none
      | some (v, cs) =>
        match skipFiller? false cs with
        | some (',' :: cs) => items? fuel depth (v :: done) cs
        | some (']' :: cs) => some ((v :: done).reverse, cs)
        | _ => none

/-- Reads one or more entries of a table in braces up to its brace. -/
def entries? : (fuel depth : Nat) → Entries → List Char → Option (Entries × List Char)
  | 0, _, _, _ => none
  | fuel + 1, depth, es, cs =>
    match key? cs with
    | some (path, '=' :: cs) =>
      match value? fuel depth (skipBlank cs) with
      | none => none
      | some (v, cs) =>
        match es.put? path v, skipBlank cs with
        | some es, ',' :: cs => entries? fuel depth es cs
        | some es, '\x7d' :: cs => some (es, cs)
        | _, _ => none
    | _ => none

end

/-- Reads the lines of a document in at most `fuel` steps; `opened` is the key of the last header. -/
def lines? (fuel : Nat) (es : Entries) (opened : List String) (cs : List Char) : Option Entries :=
  match fuel with
  | 0 => none
  | fuel + 1 =>
    match skipFiller? false cs with
    | none => none
    | some [] => some es
    | some ('[' :: '[' :: cs) => do
      match ← key? cs with
      | (path, ']' :: ']' :: cs) => lines? fuel (← es.openItem? path) path (← endLine? cs)
      | _ => none
    | some ('[' :: cs) => do
      match ← key? cs with
      | (path, ']' :: cs) => lines? fuel (← es.openTable? path) path (← endLine? cs)
      | _ => none
    | some cs => do
      match ← key? cs with
      | (path, '=' :: cs) =>
        let (v, cs) ← value? (2 * cs.length) maxDepth (skipBlank cs)
        lines? fuel (← es.putIn? opened path v) opened (← endLine? cs)
      | _ => none

/-- The mark that a text may begin with and that is no part of it. -/
def byteOrderMark : Char := '\uFEFF'

/-- The value of a document. Of two steps of the reader of a value one at least consumes a character,
so that twice their number suffices; every line of the document consumes one. -/
def parse? (s : String) : Option Value :=
  let cs := match s.toList with
    | c :: cs => if c = byteOrderMark then cs else c :: cs
    | [] => []
  (lines? (cs.length + 1) [] [] cs).bind Entries.toDocument?

end BuildLayout.Settings.Toml
