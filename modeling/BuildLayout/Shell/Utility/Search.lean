import BuildLayout.Shell.Utility.Basic
import BuildLayout.Shell.Utility.Regex

/-! # Searching lines

`grep` prints the lines in which one of several patterns is found.
-/

namespace BuildLayout.Shell.Utility

/-- The lines of a list of patterns. -/
def patternLines (s : String) : List (List Char) := (s.toList.splitBy fun a _ => a != '\n').map fun cs =>
  cs.filter (· ≠ '\n')

/-- The first of the places that patterns are found at; of two at one place the longer one. -/
def firstOf (found : List (Nat × Nat)) : Option (Nat × Nat) :=
  found.foldl (fun best f =>
    match best with
    | some b => if f.1 < b.1 ∨ (f.1 = b.1 ∧ b.2 < f.2) then some f else best
    | none => some f) none

/-- The search for a regular expression. -/
def regexSearch (r : Regex) (cs : List Char) : Option (Nat × Nat) :=
  (r.searchLine cs).map fun (start, p) => (start, p.passed - start)

/-- The search for a text. -/
def textSearch (folded : Bool) (text cs : List Char) : Option (Nat × Nat) :=
  let fold (cs : List Char) : List Char := if folded then cs.map Char.toLower else cs
  ((List.range (cs.length + 1)).find? fun i => (fold text).isPrefixOf (fold (cs.drop i))).map fun i =>
    (i, text.length)

/-- All places where a pattern is found, one after the other. -/
def findAll (find : List Char → Option (Nat × Nat)) : (fuel : Nat) → List Char → List (List Char)
  | 0, _ => []
  | fuel + 1, cs =>
    match find cs with
    | none => []
    | some (start, size) =>
      let found := (cs.drop start).take size
      let rest := cs.drop (start + max size 1)
      (if size = 0 then [] else [found]) ++ (if cs.length ≤ start then [] else findAll find fuel rest)

/-- Prints the lines in which a pattern is found. -/
def grep : Utility := fun args =>
  let u : Usage :=
    { flags := "EFGivnclLqshHowxrRaI", valued := "emABC"
      long := [("quiet", 'q'), ("count", 'c'), ("ignore-case", 'i'), ("invert-match", 'v'),
        ("fixed-strings", 'F'), ("extended-regexp", 'E'), ("only-matching", 'o'), ("color", 'a'),
        ("colour", 'a'), ("line-number", 'n'), ("files-with-matches", 'l'), ("no-messages", 's'),
        ("recursive", 'r'), ("word-regexp", 'w'), ("line-regexp", 'x'), ("no-filename", 'h'),
        ("with-filename", 'H'), ("max-count", 'm'), ("regexp", 'e'), ("after-context", 'A'),
        ("before-context", 'B'), ("context", 'C')] }
  match options u (args.length + 1) args with
  | .error message => do
    Run.complain message
    Run.put 2 ("Usage: grep [OPTION]... PATTERNS [FILE]...\n" ++
      "Try 'grep --help' for more information.\n")
    return 2
  | .ok given => do
    let named := given.1.filterMap fun (c, s) => if c = 'e' then some s else none
    let (patterns, files) := if named = [] then (given.2.take 1, given.2.drop 1) else (named, given.2)
    if patterns = [] then
      Run.put 2 ("Usage: grep [OPTION]... PATTERNS [FILE]...\n" ++
        "Try 'grep --help' for more information.\n")
      return 2
    else
      let folded := has given 'i'
      let style : Regex.Style := ⟨has given 'E', folded⟩
      let around (r : Regex) : Regex :=
        if has given 'x' then .sequence .lineStart (.sequence r .lineEnd)
        else if has given 'w' then .sequence (.edge true) (.sequence r (.edge true))
        else r
      let texts := patterns.flatMap patternLines
      let texts := if texts = [] then [[]] else texts
      let searches := texts.map fun cs =>
        if has given 'F' ∧ !has given 'x' ∧ !has given 'w' then some (textSearch folded cs)
        else if has given 'F' then
          some (regexSearch (around (cs.foldl (fun r c => .sequence r (Regex.literal style c)) .empty)))
        else (Regex.read style cs).map fun r => regexSearch (around r)
      if searches.any Option.isNone then
        Run.programFails "Unmatched ( or \\(" 2
      else
        let find (cs : List Char) : Option (Nat × Nat) :=
          firstOf (searches.filterMap fun f => f.bind fun f => f cs)
        let deep := has given 'r' || has given 'R'
        let headed := ((1 < files.length || deep) && !has given 'h') || has given 'H'
        let quiet := has given 'q'
        let context (letter : Char) : Option Nat :=
          ((valueOf? given letter).orElse fun _ => valueOf? given 'C').bind natural?
        let (before, after) := (context 'B', context 'A')
        let inContext := before.isSome || after.isSome
        let d ← Run.disk
        let files := if deep && files = [] then ["."] else files
        let files := if !deep then files else files.flatMap fun file =>
          match d.locate true ⟨widen file⟩ with
          | .ok location =>
            if d.node? location = some .directory then
              (((d.below location).filterMap fun
                | (names, .file _ _) => some (file ++ "/" ++ "/".intercalate (names.map narrow))
                | _ => none).mergeSort fun a b => !(b < a))
            else [file]
          | .error _ => [file]
        let (any, status) ← (if files = [] then ["-"] else files).foldlM (fun (any, status) file => do
          match ← readFile file with
          | .error e =>
            if has given 's' then return (any, 2)
            else return (any, ← Run.programFails (file ++ ": " ++ shortText e) 2)
          | .ok bytes => do
            let name := if file = "-" then "(standard input)" else file
            let label := if headed then name ++ ":" else ""
            let found := (linesOf bytes).zipIdx.filter fun (line, _) =>
              (find line.toList).isSome != has given 'v'
            let found := match (valueOf? given 'm').bind natural? with
              | some n => found.take n
              | none => found
            if quiet then return (any || !found.isEmpty, status)
            else if has given 'l' then
              if !found.isEmpty then Run.putLine name
            else if has given 'L' then
              if found.isEmpty then Run.putLine name
            else if has given 'c' then Run.putLine (label ++ toString found.length)
            else
              let numbered (mark : String) (i : Nat) : String :=
                (if headed then name ++ mark else "") ++
                  (if has given 'n' then toString (i + 1) ++ mark else "")
              let shown := (linesOf bytes).zipIdx.filter fun (_, i) =>
                found.any fun f => i ≤ f.2 + after.getD 0 && f.2 ≤ i + before.getD 0
              let _ ← shown.foldlM (fun (last : Option Nat) (line, i) => do
                if inContext && last.any (fun n => n + 1 < i) then Run.putLine "--"
                if found.any (·.2 = i) then
                  if has given 'o' then
                    (findAll find (line.length + 1) line.toList).forM fun cs =>
                      Run.putLine (numbered ":" i ++ String.ofList cs)
                  else Run.putLine (numbered ":" i ++ line)
                else if !has given 'o' then Run.putLine (numbered "-" i ++ line)
                return some i) none
            return (any || !found.isEmpty, status)) (false, 0)
        return if any && (quiet || status = 0) then 0 else if status = 0 then 1 else 2

end BuildLayout.Shell.Utility
