import BuildLayout.Shell.Utility.Basic
import BuildLayout.Shell.Utility.Regex

/-! # Editing lines

`sed` edits lines by a script. `Editing.read` reads a script as a list of steps, and `Editing.run` takes
the lines one by one through them. A step may go to another one, so that there is a bound on how many
are done.
-/

namespace BuildLayout.Shell

namespace Editing

/-- Which lines a step is for. -/
inductive Address where
  | line (n : Nat)
  | last
  /-- Every so many lines, from one on. -/
  | every (first step : Nat)
  /-- The lines where an expression fits, the last one that was used unless it is given. -/
  | fitting (r : Option Regex)

/-- Where a range of lines ends. -/
inductive Bound where
  | address (a : Address)
  /-- So many lines after the first. -/
  | more (n : Nat)

/-- The lines that a step is for. -/
structure Selector where
  first : Option Address := none
  last : Option Bound := none
  negated : Bool := false

/-- A piece of what is put in place of what fits. -/
inductive Replacement where
  | text (cs : List Char)
  | whole
  | group (n : Nat)
  /-- From here on, or for one character, letters are made large or small. -/
  | letters (c : Char)

/-- What a step does. -/
inductive Action where
  /-- The steps up to the one with this number are for some lines only. -/
  | opening (close : Nat)
  | closing
  | label
  | substitute (r : Option Regex) (filling : List Replacement) (nth : Nat) (all print : Bool)
  | print
  | printFirst
  | delete
  | deleteFirst
  | quit (status : Nat) (silent : Bool)
  | number
  | translate (pairs : List (Char × Char))
  | append (s : String)
  | insert (s : String)
  | change (s : String)
  | next
  | nextAppend
  | hold
  | holdAppend
  | get
  | getAppend
  | exchange
  | branch (label : String)
  | branchIf (label : String)

/-- A step of a script. -/
structure Step where
  selector : Selector
  action : Action
  /-- The name of the place, for a label. -/
  name : String := ""

/-! ## Reading -/

/-- What is wrong with a script, and after how many characters of it. -/
abbrev Fault := Nat × String

/-- A reader of scripts: the state is what is left of the script. -/
abbrev Read := StateT (List Char) (Except Fault)

/-- What a script is read with. -/
structure Setting where
  size : Nat
  extended : Bool

/-- Refuses a script. -/
def refuse {α : Type} (setting : Setting) (message : String) : Read α := do
  throw (setting.size - (← get).length, message)

/-- Takes characters of a kind. -/
def takeWhile (isIn : Char → Bool) : Read (List Char) := modifyGet fun cs =>
  (cs.takeWhile isIn, cs.dropWhile isIn)

/-- Takes a number. -/
def number : Read Nat := do
  return (← takeWhile Char.isDigit).foldl (fun n c => n * 10 + (c.toNat - 0x30)) 0

/-- Takes the characters up to a mark that is not quoted, and the mark. In sets a mark stands for
itself. -/
def upTo (setting : Setting) (mark : Char) (fault : String) (sets : Bool) : (fuel : Nat) →
    (inside : Bool) → Read (List Char)
  | 0, _ => refuse setting fault
  | fuel + 1, inside => do
    match ← get with
    | [] => refuse setting fault
    | '\\' :: c :: cs => do
      set cs
      let quoted : List Char :=
        if c = mark then [c] else if c = 'n' && !sets then ['\n'] else ['\\', c]
      return quoted ++ (← upTo setting mark fault sets fuel inside)
    | c :: cs => do
      set cs
      if c = mark && !inside then return []
      else
        let inside := if c = '[' then sets else if c = ']' then false else inside
        return c :: (← upTo setting mark fault sets fuel inside)

/-- Reads a regular expression; an empty one is the last one that was used. -/
def regex (setting : Setting) (folded : Bool) (cs : List Char) : Read (Option Regex) :=
  if cs = [] then return none
  else
    match Regex.read ⟨setting.extended, folded⟩ cs with
    | some r => return some r
    | none => refuse setting "Unmatched ( or \\("

/-- Reads an address, if there is one. -/
def address (setting : Setting) : Read (Option Address) := do
  let cs ← get
  match cs with
  | '$' :: cs => do
    set cs
    return some .last
  | '/' :: cs => do
    set cs
    let source ← upTo setting '/' "unterminated address regex" true (cs.length + 1) false
    let folded := (← get).head? = some 'I'
    if folded then modify (·.drop 1)
    return some (.fitting (← regex setting folded source))
  | '\\' :: mark :: cs => do
    set cs
    let source ← upTo setting mark "unterminated address regex" true (cs.length + 1) false
    return some (.fitting (← regex setting false source))
  | c :: _ =>
    if c.isDigit then do
      let n ← number
      if (← get).head? = some '~' then
        modify (·.drop 1)
        return some (.every n (← number))
      else return some (.line n)
    else return none
  | [] => return none

/-- Reads the end of a range. -/
def bound (setting : Setting) : Read Bound := do
  match ← get with
  | '+' :: cs => do
    set cs
    return .more (← number)
  | _ => do
    match ← address setting with
    | some a => return .address a
    | none => refuse setting "unexpected \x60,'"

/-- Takes blanks. -/
def blanks : Read Unit := do
  let _ ← takeWhile fun c => c == ' ' || c == '\t'

/-- Reads which lines a step is for. -/
def selector (setting : Setting) : Read Selector := do
  let first ← address setting
  blanks
  let last ← if first.isSome && (← get).head? = some ',' then do
      modify (·.drop 1)
      blanks
      pure (some (← bound setting))
    else pure none
  blanks
  let marks ← takeWhile (· = '!')
  blanks
  return ⟨first, last, !marks.isEmpty⟩

/-- The pieces of a replacement. -/
def replacement : (fuel : Nat) → List Char → List Replacement
  | 0, _ => []
  | _, [] => []
  | fuel + 1, '\\' :: c :: cs =>
    let piece : Replacement :=
      if c.isDigit then (if c = '0' then .whole else .group (c.toNat - 0x30))
      else if "ULEul".toList.contains c then .letters c
      else if c = 'n' then .text ['\n']
      else if c = 't' then .text ['\t']
      else .text [c]
    piece :: replacement fuel cs
  | fuel + 1, '&' :: cs => .whole :: replacement fuel cs
  | fuel + 1, c :: cs => .text [c] :: replacement fuel cs

/-- Reads the text of a step that adds one. -/
def addedText : Read String := do
  blanks
  match ← get with
  | '\\' :: cs => do
    set cs
    blanks
    if (← get).head? = some '\n' then modify (·.drop 1)
  | _ => pure ()
  let cs ← get
  let text := textFrom (cs.length + 1) cs
  set text.2
  return String.ofList text.1
where
  /-- The characters up to a newline that is not quoted, and what is after them. -/
  textFrom : (fuel : Nat) → List Char → List Char × List Char
    | 0, cs => ([], cs)
    | _, [] => ([], [])
    | fuel + 1, '\\' :: c :: cs =>
      let (text, rest) := textFrom fuel cs
      (c :: text, rest)
    | fuel + 1, c :: cs =>
      if c = '\n' then ([], cs)
      else
        let (text, rest) := textFrom fuel cs
        (c :: text, rest)

/-- Reads the name of a place in the script. -/
def labelName : Read String := do
  blanks
  return String.ofList (← takeWhile fun c => c != '\n' && c != ';' && c != '\x7d' && c != ' ')

/-- Reads a substitution. -/
def substitution (setting : Setting) : Read Action := do
  match ← get with
  | [] => refuse setting "unterminated \x60s' command"
  | mark :: cs => do
    set cs
    let fault := "unterminated \x60s' command"
    let source ← upTo setting mark fault true (cs.length + 1) false
    let cs ← get
    let filling ← upToReplacement setting mark fault (cs.length + 1)
    let flags ← takeWhile fun c => "gpIiMm".toList.contains c || c.isDigit
    let folded := flags.contains 'I' || flags.contains 'i'
    let nth := (flags.filter Char.isDigit).foldl (fun n c => n * 10 + (c.toNat - 0x30)) 0
    if (← get).head?.any fun c => c.isAlpha then refuse setting "unknown option to \x60s'"
    let r ← regex setting folded source
    return .substitute r (replacement (filling.length + 1) filling) (max nth 1) (flags.contains 'g')
      (flags.contains 'p')
where
  /-- Takes a replacement, in which quoted characters stay quoted. -/
  upToReplacement (setting : Setting) (mark : Char) (fault : String) : (fuel : Nat) → Read (List Char)
    | 0 => refuse setting fault
    | fuel + 1 => do
      match ← get with
      | [] => refuse setting fault
      | '\\' :: c :: cs => do
        set cs
        return (if c = mark && c ≠ '&' then [c] else ['\\', c]) ++
          (← upToReplacement setting mark fault fuel)
      | c :: cs => do
        set cs
        if c = mark then return [] else return c :: (← upToReplacement setting mark fault fuel)

/-- Reads what a step does; its letter was taken. -/
def action (setting : Setting) (c : Char) : Read Action := do
  match c with
  | 's' => substitution setting
  | 'y' => do
    match ← get with
    | [] => refuse setting "unterminated \x60y' command"
    | mark :: cs => do
      set cs
      let fault := "unterminated \x60y' command"
      let a ← upTo setting mark fault false (cs.length + 1) false
      let b ← upTo setting mark fault false (cs.length + 1) false
      if a.length ≠ b.length then
        refuse setting "strings for \x60y' command are different lengths"
      return .translate (a.zip b)
  | 'p' => return .print
  | 'P' => return .printFirst
  | 'd' => return .delete
  | 'D' => return .deleteFirst
  | 'q' => do
    blanks
    return .quit (← number) false
  | 'Q' => do
    blanks
    return .quit (← number) true
  | '=' => return .number
  | 'a' => return .append (← addedText)
  | 'i' => return .insert (← addedText)
  | 'c' => return .change (← addedText)
  | 'n' => return .next
  | 'N' => return .nextAppend
  | 'h' => return .hold
  | 'H' => return .holdAppend
  | 'g' => return .get
  | 'G' => return .getAppend
  | 'x' => return .exchange
  | 'b' => return .branch (← labelName)
  | 't' => return .branchIf (← labelName)
  | _ => refuse setting ("unknown command: \x60" ++ String.ofList [c] ++ "'")

/-- Reads the steps of a script; `opened` are the selectors of the steps whose end is awaited. -/
def steps (setting : Setting) : (fuel : Nat) → (depth : Nat) → Read (List Step)
  | 0, _ => return []
  | fuel + 1, depth => do
    let _ ← takeWhile fun c => " \t\n;".toList.contains c
    match ← get with
    | [] => if depth = 0 then return [] else throw (0, "unmatched \x60\x7b'")
    | '#' :: _ => do
      let _ ← takeWhile (· ≠ '\n')
      steps setting fuel depth
    | '\x7d' :: cs => do
      set cs
      if depth = 0 then refuse setting "unexpected \x60\x7d'"
      return ⟨{}, .closing, ""⟩ :: (← steps setting fuel (depth - 1))
    | ':' :: cs => do
      set cs
      let name ← labelName
      return ⟨{}, .label, name⟩ :: (← steps setting fuel depth)
    | _ => do
      let s ← selector setting
      match ← get with
      | [] => refuse setting "missing command"
      | '\x7b' :: cs => do
        set cs
        return ⟨s, .opening 0, ""⟩ :: (← steps setting fuel (depth + 1))
      | c :: cs => do
        set cs
        let a ← action setting c
        blanks
        let ended := match a with
          | .append _ | .insert _ | .change _ => true
          | _ => false
        let next := (← get).head?
        if !ended && next.any fun c => !(";\n\x7d#".toList.contains c) then
          modify (·.drop 1)
          refuse setting "extra characters after command"
        return ⟨s, a, ""⟩ :: (← steps setting fuel depth)

/-- The number of the step that closes one that was opened before; `depth` others are open. -/
def closeOf : (depth n : Nat) → List Step → Nat
  | _, n, [] => n
  | depth, n, s :: ss =>
    match s.action, depth with
    | .closing, 0 => n
    | .closing, depth + 1 => closeOf depth (n + 1) ss
    | .opening _, depth => closeOf (depth + 1) (n + 1) ss
    | _, depth => closeOf depth (n + 1) ss

/-- Steps of which each that opens others knows the number of the one that closes them. -/
def linked : (n : Nat) → List Step → List Step
  | _, [] => []
  | n, s :: ss =>
    (match s.action with
      | .opening _ => { s with action := .opening (closeOf 0 (n + 1) ss) }
      | _ => s) :: linked (n + 1) ss

/-- Reads a script. -/
def read (extended : Bool) (source : String) : Except Fault (List Step) :=
  let cs := source.toList
  ((steps ⟨cs.length, extended⟩ (cs.length + 1) 0).run cs).map fun (ss, _) => linked 0 ss

/-! ## Running -/

/-- The state of editing. -/
structure Editor where
  /-- The lines that were not read yet. -/
  rest : List String
  line : Nat := 0
  space : List Char := []
  held : List Char := []
  /-- The lines that were printed, last first. -/
  out : List String := []
  /-- What is printed after the line. -/
  after : List String := []
  /-- The ranges that began, each with the line on which it ends if that is known. -/
  ranges : List (Nat × Option Nat) := []
  used : Option Regex := none
  /-- Something was replaced since the line was read. -/
  replaced : Bool := false
  /-- The outcome, when the end was asked for. -/
  ended : Option Nat := none
  /-- The line is not printed at its end. -/
  silent : Bool := false
  /-- The steps begin again with what is left of the line. -/
  restarted : Bool := false

namespace Editor

/-- Prints a line. -/
def print (e : Editor) (cs : List Char) : Editor := { e with out := String.ofList cs :: e.out }

/-- Prints what was to be printed after the line. -/
def flush (e : Editor) : Editor := { e with out := e.after.reverse ++ e.out, after := [] }

/-- The line is one that an address is for. -/
def isAt (e : Editor) : Address → Bool × Editor
  | .line n => (e.line = n, e)
  | .last => (e.rest.isEmpty, e)
  | .every first step =>
    (if step = 0 then e.line = first else first ≤ e.line && (e.line - first) % step = 0, e)
  | .fitting r =>
    match r.or e.used with
    | some r => ((r.searchLine e.space).isSome, { e with used := some r })
    | none => (false, e)

/-- The step with a number is for the line. -/
def isSelected (e : Editor) (n : Nat) (s : Selector) : Bool × Editor :=
  let (holds, e) : Bool × Editor :=
    match s.first, s.last with
    | none, _ => (true, e)
    | some a, none => e.isAt a
    | some a, some b =>
      let without : Editor := { e with ranges := e.ranges.filter (·.1 ≠ n) }
      match e.ranges.lookup n with
      | some (some last) => (e.line ≤ last, if last ≤ e.line then without else e)
      | some none =>
        match b with
        | .address b =>
          let (ends, e) := e.isAt b
          (true, if ends then { e with ranges := e.ranges.filter (·.1 ≠ n) } else e)
        | .more _ => (true, without)
      | none =>
        let (begins, e) := e.isAt a
        if !begins then (false, e)
        else
          let opened (last : Option Nat) : Editor := { e with ranges := (n, last) :: e.ranges }
          match b with
          | .more k => (true, if k = 0 then e else opened (some (e.line + k)))
          | .address (.line k) => (true, if k ≤ e.line then e else opened (some k))
          | .address _ => (true, opened none)
  (holds != s.negated, e)

/-- Reads the next line. -/
def advance (e : Editor) (line : String) (rest : List String) : Editor :=
  { e with rest, line := e.line + 1, space := line.toList, replaced := false }

end Editor

/-- What is put in place of what fits; `mode` says how letters are changed, and `once` how the next one
is. -/
def replaced (whole : List Char) (groups : List (Nat × List Char)) :
    (mode once : Option Char) → List Replacement → List Char
  | _, _, [] => []
  | mode, once, r :: rs =>
    let change (c : Option Char) (d : Char) : Char :=
      match c with
      | some 'U' | some 'u' => d.toUpper
      | some 'L' | some 'l' => d.toLower
      | _ => d
    let put (cs : List Char) : List Char :=
      match cs with
      | [] => replaced whole groups mode once rs
      | d :: ds =>
        (if once.isSome then change once d else change mode d) :: ds.map (change mode) ++
          replaced whole groups mode none rs
    match r with
    | .text cs => put cs
    | .whole => put whole
    | .group n => put ((groups.lookup n).getD [])
    | .letters c =>
      if c = 'u' ∨ c = 'l' then replaced whole groups mode (some c) rs
      else replaced whole groups (if c = 'E' then none else some c) once rs

/-- Replaces what fits in a line, from the place with number `nth` on; it is told whether something
was replaced. -/
def substituteFrom (r : Regex) (filling : List Replacement) (all : Bool) : (fuel nth : Nat) →
    (after : Bool) → Regex.Place → List Char × Bool
  | 0, _, _, p => (p.rest, false)
  | fuel + 1, nth, after, p =>
    match r.search (p.rest.length + 1) { p with groups := [] } with
    | none => (p.rest, false)
    | some (start, q) =>
      let before := p.rest.take (start - p.passed)
      let found := (p.rest.drop (start - p.passed)).take (q.passed - start)
      let next : Regex.Place := if found = [] then q.after 1 else q
      let skipped := if found = [] then q.rest.take 1 else []
      let idle := found = [] && after && start = p.passed
      if idle ∨ 1 < nth then
        let (rest, done) := if idle && p.rest.isEmpty then ([], false)
          else substituteFrom r filling all fuel (if idle then nth else nth - 1) (found ≠ []) next
        (before ++ found ++ skipped ++ rest, done)
      else
        let put := replaced found q.groups none none filling
        let (rest, _) := if !all then (skipped ++ next.rest, true)
          else if found = [] && q.rest.isEmpty then ([], true)
          else
            let (rest, done) := substituteFrom r filling all fuel 1 (found ≠ []) next
            (skipped ++ rest, done)
        (before ++ put ++ rest, true)

/-- The number of the step after the label with a name. -/
def stepOf (ss : List Step) (name : String) : Nat :=
  if name = "" then ss.length
  else (ss.findIdx? fun s => match s.action with
    | .label => s.name == name
    | _ => false).getD ss.length

/-- Takes a line through the steps from one on. -/
def runSteps (ss : List Step) (quiet : Bool) : (fuel n : Nat) → Editor → Editor
  | 0, _, e => { e with ended := some 1 }
  | fuel + 1, n, e =>
    match ss[n]? with
    | none => e
    | some s =>
      let (selected, e) := e.isSelected n s.selector
      let next := runSteps ss quiet fuel (n + 1)
      if !selected then
        match s.action with
        | .opening close => runSteps ss quiet fuel (close + 1) e
        | _ => next e
      else
        match s.action with
        | .opening _ | .closing | .label => next e
        | .substitute r filling nth all print =>
          match r.or e.used with
          | none => next e
          | some r =>
            let e := { e with used := some r }
            let (cs, done) :=
              substituteFrom r filling all (2 * e.space.length + 4) nth false ⟨none, 0, e.space, []⟩
            if done then
              let e := { e with space := cs, replaced := true }
              next (if print then e.print cs else e)
            else next e
        | .print => next (e.print e.space)
        | .printFirst => next (e.print (e.space.takeWhile (· ≠ '\n')))
        | .delete => { e with silent := true }
        | .deleteFirst =>
          match e.space.dropWhile (· ≠ '\n') with
          | [] => { e with silent := true }
          | _ :: rest => { e with silent := true, space := rest, restarted := true }
        | .quit status silent => { e with ended := some status, silent := e.silent || silent }
        | .number => next (e.print (toString e.line).toList)
        | .translate pairs =>
          next { e with space := e.space.map fun c => (pairs.lookup c).getD c }
        | .append t => next { e with after := e.after ++ [t] }
        | .insert t => next (e.print t.toList)
        | .change t =>
          let last := s.selector.last.isNone || (e.ranges.lookup n).isNone
          { (if last then e.print t.toList else e) with silent := true }
        | .next =>
          match e.rest with
          | [] => { e with ended := some 0 }
          | line :: rest =>
            let e := (if quiet then e else e.print e.space).flush
            next { e.advance line rest with replaced := e.replaced }
        | .nextAppend =>
          match e.rest with
          | [] => { e with ended := some 0 }
          | line :: rest =>
            let e := e.flush
            next { e.advance line rest with
              space := e.space ++ '\n' :: line.toList
              replaced := e.replaced }
        | .hold => next { e with held := e.space }
        | .holdAppend => next { e with held := e.held ++ '\n' :: e.space }
        | .get => next { e with space := e.held }
        | .getAppend => next { e with space := e.space ++ '\n' :: e.held }
        | .exchange => next { e with space := e.held, held := e.space }
        | .branch name => runSteps ss quiet fuel (stepOf ss name) e
        | .branchIf name =>
          if e.replaced then runSteps ss quiet fuel (stepOf ss name) { e with replaced := false }
          else next e

/-- The number of steps after which a line is given up. -/
def maxSteps : Nat := 100000

/-- Edits the lines that are left. -/
def run (ss : List Step) (quiet : Bool) : (fuel : Nat) → Editor → Editor
  | 0, e => e
  | fuel + 1, e =>
    match e.ended, e.restarted, e.rest with
    | some _, _, _ => e
    | none, false, [] => e
    | none, restarted, lines =>
      let e := match restarted, lines with
        | false, line :: rest => e.advance line rest
        | _, _ => e
      let e := runSteps ss quiet maxSteps 0 { e with silent := false, restarted := false }
      let e := (if quiet || e.silent then e else e.print e.space).flush
      run ss quiet fuel e

end Editing

namespace Utility

/-- Edits lines by a script. -/
def sed : Utility := fun args =>
  let u : Usage :=
    { flags := "nErsuiz", valued := "ef"
      long := [("quiet", 'n'), ("silent", 'n'), ("regexp-extended", 'E'), ("expression", 'e'),
        ("in-place", 'i')] }
  withOptions u args 1 fun given => do
    let named := given.1.filterMap fun (c, s) => if c = 'e' then some s else none
    let (source, files) : String × List String :=
      if named = [] then ((given.2.head?).getD "", given.2.drop 1)
      else ("\n".intercalate named, given.2)
    if named = [] ∧ given.2 = [] then
      Run.put 2 ("Usage: " ++ (← Run.own).called ++
        " [OPTION]... \x7bscript-only-if-no-other-script\x7d [input-file]...\n")
      return 1
    else
      match Editing.read (has given 'E' || has given 'r') source with
      | .error (n, message) => do
        Run.complain ("-e expression #1, char " ++ toString n ++ ": " ++ message)
        return 1
      | .ok ss => do
        let quiet := has given 'n'
        let edited (lines : List String) : Editing.Editor :=
          Editing.run ss quiet (2 * lines.length + 100000) { rest := lines }
        let text (whole : Bool) (e : Editing.Editor) : String :=
          let s := String.join (e.out.reverse.map (· ++ "\n"))
          if whole then s else String.ofList s.toList.dropLast
        if has given 'i' then
          forEach files fun file => do
            match ← readFile file with
            | .error e =>
              Run.programFails ("can't read " ++ file ++ ": " ++ shortText e) 2
            | .ok bytes => do
              let e := edited (linesOf bytes)
              let whole := bytes.getLast? ≠ none && bytes.getLast? == some 10
              match (← Run.disk).writeFile ⟨widen file⟩ (toBytes (text whole e)) false with
              | .ok d => Run.setDisk d
              | .error _ => pure ()
              return e.ended.getD 0
        else
          let (bytes, status) ← gathered (fun f => "can't read " ++ f) files
          let e := edited (linesOf bytes)
          let whole := bytes.getLast? = none || bytes.getLast? == some 10
          Run.put 1 (text whole e)
          return if status = 0 then e.ended.getD 0 else 2

end Utility

end BuildLayout.Shell
