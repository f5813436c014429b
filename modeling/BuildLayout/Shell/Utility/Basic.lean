import BuildLayout.Shell.State

/-! # Programs of the system

What the small programs of the system have in common: how they read their options, open files and
complain. A `Utility` prints to the channels of the process and gives its outcome.
-/

namespace BuildLayout.Shell

open Text (Bytes)

/-- A program: what it does with its arguments, and its outcome. -/
abbrev Utility := List String → Run Nat

namespace Utility

/-! ## Options -/

/-- The options of a program: letters that stand alone, letters with a value, and long names, each
with the letter that it stands for. -/
structure Usage where
  flags : String := ""
  valued : String := ""
  long : List (String × Char) := []
  /-- What stands after an argument that is no option is none. -/
  ordered : Bool := false

/-- The options that were given, each with its value, and the other arguments. -/
abbrev Given := List (Char × String) × List String

/-- Reads the letters of one argument. `more` are the arguments after it. -/
def letters (u : Usage) : List Char → (more : List String) →
    Except String (List (Char × String) × List String)
  | [], more => .ok ([], more)
  | c :: cs, more =>
    if u.valued.toList.contains c then
      match cs, more with
      | [], [] => .error ("option requires an argument -- '" ++ String.ofList [c] ++ "'")
      | [], value :: more => .ok ([(c, value)], more)
      | cs, more => .ok ([(c, String.ofList cs)], more)
    else if u.flags.toList.contains c then
      (letters u cs more).map fun (os, more) => ((c, "") :: os, more)
    else .error ("invalid option -- '" ++ String.ofList [c] ++ "'")

/-- Reads an option by its long name. -/
def longOption (u : Usage) (s : String) (more : List String) :
    Except String (List (Char × String) × List String) :=
  let name := String.ofList (s.toList.takeWhile (· ≠ '='))
  let value := String.ofList (s.toList.drop (name.length + 1))
  match u.long.lookup name with
  | none => .error ("unrecognized option '--" ++ s ++ "'")
  | some c =>
    if u.valued.toList.contains c ∧ name = s then
      match more with
      | [] => .error ("option '--" ++ name ++ "' requires an argument")
      | value :: more => .ok ([(c, value)], more)
    else .ok ([(c, value)], more)

/-- Reads options among arguments; two dashes end them. -/
def options (u : Usage) : (fuel : Nat) → List String → Except String Given
  | 0, args => .ok ([], args)
  | _, [] => .ok ([], [])
  | fuel + 1, a :: args =>
    match a.toList with
    | ['-', '-'] => .ok ([], args)
    | '-' :: '-' :: cs => do
      let (os, args) ← longOption u (String.ofList cs) args
      let (more, rest) ← options u fuel args
      return (os ++ more, rest)
    | '-' :: c :: cs => do
      let (os, args) ← letters u (c :: cs) args
      let (more, rest) ← options u fuel args
      return (os ++ more, rest)
    | _ =>
      if u.ordered then .ok ([], a :: args)
      else do
        let (more, rest) ← options u fuel args
        return (more, a :: rest)

/-- An option was given. -/
def has (given : Given) (c : Char) : Bool := given.1.any (·.1 = c)

/-- The value of an option, of the last one if it was given more than once. -/
def valueOf? (given : Given) (c : Char) : Option String := given.1.reverse.lookup c

/-! ## Complaints -/

/-- Complains of how the program was called. -/
def misused (message : String) (status : Nat) : Run Nat := do
  Run.complain message
  Run.put 2 ("Try '" ++ (← Run.own).called ++ " --help' for more information.\n")
  return status

/-- Runs a program with its options, if they are in order. -/
def withOptions (u : Usage) (args : List String) (status : Nat)
    (run : Given → Run Nat) : Run Nat :=
  match options u (args.length + 1) args with
  | .ok given => run given
  | .error message => misused message status

/-- Does something with each argument; the outcome is the greatest. -/
def forEach (args : List String) (run : String → Run Nat) : Run Nat :=
  args.foldlM (fun status a => return max status (← run a)) 0

/-! ## Files -/

/-- The bytes of a file; a dash stands for the input. -/
def readFile (name : String) : Run (Except OsError Bytes) := do
  if name = "-" ∨ name = "/dev/stdin" then return .ok (← Run.takeInput)
  else return (← Run.disk).read ⟨widen name⟩

/-- The lines of bytes without their newlines. -/
def linesOf (bytes : Bytes) : List String :=
  let lines := bytes.foldr (fun (b : UInt8) (lines : List (List Char)) =>
    if b = 10 then [] :: lines
    else
      match lines with
      | [] => [[Char.ofNat b.toNat]]
      | line :: rest => (Char.ofNat b.toNat :: line) :: rest) [[]]
  (if lines.getLast? = some [] then lines.dropLast else lines).map String.ofList

/-- Does something with the bytes of each file, or of the input when none is named. Of a file that
cannot be read it is told why. -/
def withFiles (complaint : String → String) (files : List String)
    (run : String → Bytes → Run Nat) : Run Nat :=
  forEach (if files = [] then ["-"] else files) fun file => do
    match ← readFile file with
    | .ok bytes => run file bytes
    | .error e => Run.programFails (complaint file ++ ": " ++ shortText e) 1

/-- The bytes of all files together. -/
def gathered (complaint : String → String) (files : List String) :
    Run (Bytes × Nat) :=
  (if files = [] then ["-"] else files).foldlM (fun (all, status) file => do
    match ← readFile file with
    | .ok bytes => return (all ++ bytes, status)
    | .error e => return (all, ← Run.programFails (complaint file ++ ": " ++ shortText e) 1))
    ([], 0)

/-- A location comes no later than another one, and a directory before what stands in it. -/
def isBefore : Location → Location → Bool
  | [], _ => true
  | _ :: _, [] => false
  | a :: as, b :: bs => if a = b then isBefore as bs else !(b < a)

/-- A number that is written with digits alone. -/
def natural? (s : String) : Option Nat :=
  if s ≠ "" ∧ s.toList.all Char.isDigit then
    some (s.toList.foldl (fun n c => n * 10 + (c.toNat - 0x30)) 0)
  else none

/-- A text at the right of a number of columns. -/
def padLeft (width : Nat) (s : String) : String :=
  String.ofList (List.replicate (width - s.length) ' ') ++ s

end Utility

end BuildLayout.Shell
