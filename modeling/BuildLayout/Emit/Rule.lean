import BuildLayout.Text.Pieces

/-! # What a compiler makes of a file name

A compiler decides by the name of a source file alone. `emitRules` is its table: a source ending and
the endings of what is emitted for it. `roleOf` says what becomes of a name; `sourcesOf?` goes back
from an emitted name to the source endings that may have produced it.
-/

namespace BuildLayout

/-- A row of the table: a source ending and the endings of what is emitted for it, dots included. -/
structure EmitRule where
  source : String
  implementation : String
  declaration : String
deriving DecidableEq, Repr

/-- The table, in the order in which it is searched. -/
def emitRules : List EmitRule := [
  ⟨".ts", ".js", ".d.ts"⟩,
  ⟨".tsx", ".js", ".d.ts"⟩,
  ⟨".mts", ".mjs", ".d.mts"⟩,
  ⟨".cts", ".cjs", ".d.cts"⟩]

/-- What a compiler makes of a source file. -/
inductive Role where
  /-- Compiled; the name is the stem followed by the source ending of the rule. -/
  | code (stem : String) (rule : EmitRule)
  /-- A declaration written by hand; it is copied. -/
  | declaration
  /-- Anything else; it is copied. -/
  | asset
deriving DecidableEq, Repr

namespace Emit

/-- What stands before an ending, when it is not empty. -/
def stem? (name ending : String) : Option String :=
  (Text.dropSuffix? name ending).filter (· ≠ "")

/-- The name ends in the declaration ending of a rule, with a stem before it. -/
def isPlainDeclaration (name : String) : Bool :=
  emitRules.any fun rule => (stem? name rule.declaration).isSome

/-- What stands before the last dot. -/
def beforeLastDot? (name : String) : Option String :=
  let pieces := Text.splitOn '.' name.toList
  if pieces.length ≤ 1 then none
  else some (String.ofList (Text.joinWith '.' pieces.dropLast))

/-- The name has the form `stem.d.any.ts`, the declaration of a file with any other ending. -/
def isForeignDeclaration (name : String) : Bool :=
  match Text.dropSuffix? name ".ts" with
  | none => false
  | some rest =>
    match beforeLastDot? rest with
    | none => false
    | some head => (stem? head ".d").isSome

/-- What a compiler makes of the file with this name. -/
def roleOf (name : String) : Role :=
  if isPlainDeclaration name || isForeignDeclaration name then .declaration
  else
    match emitRules.findSome? fun rule => (stem? name rule.source).map fun stem => (stem, rule) with
    | some (stem, rule) => .code stem rule
    | none => .asset

/-- The stem of an emitted name and the source endings that are emitted under it; declaration
endings are tried before implementation endings. -/
def sourcesOf? (name : String) : Option (String × List String) :=
  let byDeclaration := emitRules.findSome? fun rule =>
    (stem? name rule.declaration).map fun stem =>
      (stem, (emitRules.filter (·.declaration = rule.declaration)).map EmitRule.source)
  let byImplementation := emitRules.findSome? fun rule =>
    (stem? name rule.implementation).map fun stem =>
      (stem, (emitRules.filter (·.implementation = rule.implementation)).map EmitRule.source)
  byDeclaration.or byImplementation

end Emit

end BuildLayout
