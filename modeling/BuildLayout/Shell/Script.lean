import BuildLayout.Shell.Grammar
import BuildLayout.Shell.State

/-! # Running scripts

A script is run one complete command after the other (`runText`): each is read when those before it were
run. What runs a command is an `Evaluator`, which is given.
-/

namespace BuildLayout.Shell

/-- Runs a command. Where its outcome is tested, a failure does not end a strict script. -/
abbrev Evaluator := (tested : Bool) → Command → Run Nat

/-- Tells lines of a script that were read. -/
def tellLines (isFile : Bool) (cs : List Char) : Run Unit := do
  if isFile && (← Run.own).options.echoing then Run.put 2 (String.ofList cs)

/-- The characters of a number of lines. -/
def leadingLines : Nat → List Char → List Char
  | 0, _ => []
  | n + 1, cs =>
    let line := cs.takeWhile (· ≠ '\n')
    line ++ (cs.drop line.length).take 1 ++ leadingLines n (cs.drop (line.length + 1))

/-- Reads the next complete command of a script. -/
def readCommand (isFile : Bool) (source : Source) : Run (Option Command × Source) := do
  let w ← Run.world
  let aliases := (← Run.own).aliases
  match Source.next?.run { source with documents := [], nextDocument := w.nextDocument, aliases } with
  | .error fault => do
    tellLines isFile (leadingLines (fault.line + 1 - source.line) source.rest)
    Run.modifyOwn fun p => { p with line := fault.line }
    let ends := fault.message.startsWith "end of file"
    Run.misread (← Run.worded ("Syntax error: " ++ fault.message)
      ("syntax error: " ++ if ends then "unexpected end of file" else fault.message))
  | .ok (c, after) => do
    tellLines isFile (source.rest.take (source.rest.length - after.rest.length))
    let source := after
    Run.modifyOwn fun p => { p with lineRead := source.line }
    Run.modifyWorld fun w =>
      { w with
        documents := source.documents ++ w.documents
        nextDocument := source.nextDocument }
    return (c, source)

/-- Runs the commands of a script. -/
def runSource (run : Evaluator) (isFile tested : Bool) : (fuel : Nat) → (status : Nat) → Source →
    Run Nat
  | 0, status, _ => return status
  | fuel + 1, status, source => do
    let (c, source) ← readCommand isFile source
    match c with
    | none => return status
    | some .skip => runSource run isFile tested fuel status source
    | some c =>
      let status ← run tested c
      runSource run isFile tested fuel status source

/-- Runs a script that is given by its text. -/
def runText (run : Evaluator) (isFile tested : Bool) (s : String) : Run Nat := do
  let lineRead := (← Run.own).lineRead
  Run.ending (runSource run isFile tested (4 * s.length + 64) 0 { rest := s.toList })
    (Run.modifyOwn fun p => { p with lineRead })

end BuildLayout.Shell
