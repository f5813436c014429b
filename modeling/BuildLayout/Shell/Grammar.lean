import BuildLayout.Shell.Word

/-! # Reading commands

`Source.next?` reads the next complete command of a script: what stands before a newline outside all
brackets and quotes. Keywords are words that stand where a command may begin.
-/

namespace BuildLayout.Shell

/-- The keywords. -/
def keywords : List String :=
  ["!", "case", "do", "done", "elif", "else", "esac", "fi", "for", "if", "in", "then", "until",
    "while", "\x7b", "\x7d"]

/-- The commands that no function may be named after: they belong to the language. -/
def specialCommands : List String :=
  [".", ":", "break", "continue", "eval", "exec", "exit", "export", "readonly", "return", "set",
    "shift", "times", "trap", "unset"]

/-- The token, as a keyword if it is one. -/
def Token.asKeyword : Token → Token
  | .word w =>
    match w.plain? with
    | some cs => if keywords.contains (String.ofList cs) then .keyword (String.ofList cs) else .word w
    | none => .word w
  | t => t

/-- Where a list of commands stands. -/
inductive Place where
  /-- On a line of its own. -/
  | line
  /-- In a command, where it must not be empty. -/
  | body
  /-- In a command, where it may be empty. -/
  | branch
deriving DecidableEq, Repr

/-- Which words are more than words where a token stands. -/
structure Known where
  keywords : Bool := false
  /-- Other names of commands. -/
  aliases : Bool := false

namespace Known

/-- No word. -/
def nothing : Known := {}

/-- The words with which a command may begin. -/
def command : Known := ⟨true, true⟩

/-- Keywords only. -/
def keyword : Known := ⟨true, false⟩

/-- Other names of commands only. -/
def aliased : Known := ⟨false, true⟩

end Known

namespace Source

/-- Passes blanks and comments over. -/
def skipBlanks : (fuel : Nat) → Parse Unit
  | 0 => return ()
  | fuel + 1 => do
    match ← peek? with
    | some ' ' | some '\t' => do
      advance
      skipBlanks fuel
    | some '#' => do
      let _ ← takeUntil (· = '\n')
      skipBlanks fuel
    | _ => return ()

/-- Reads an operator of one character or of the same character twice. -/
def doubled (c : Char) : Parse Token := do
  advance
  if ← skip? c then return .operator (String.ofList [c, c]) else return .operator (String.ofList [c])

/-- Reads the operator that connects a channel to a file. -/
def redirection (channel : Option Nat) : Parse Token := do
  if ← skip? '>' then
    let channel := channel.getD 1
    if ← skip? '>' then return .redirect channel ">>"
    else if ← skip? '|' then return .redirect channel ">|"
    else if ← skip? '&' then return .redirect channel ">&"
    else return .redirect channel ">"
  else
    advance
    let channel := channel.getD 0
    if ← skip? '<' then
      if ← skip? '-' then return .redirect channel "<<-" else return .redirect channel "<<"
    else if ← skip? '&' then return .redirect channel "<&"
    else if ← skip? '>' then return .redirect channel "<>"
    else return .redirect channel "<"

/-- Reads a token from the text. -/
def fresh (inner : Inner) (fuel : Nat) (context : Context) : Parse Token := do
  skipBlanks fuel
  match ← peek? with
  | none => return .ends
  | some '\n' => do
    advance
    return .newline
  | some c =>
    if c = '&' ∨ c = '|' ∨ c = ';' then doubled c
    else if c = '(' ∨ c = ')' then
      advance
      return .operator (String.ofList [c])
    else
      let w := (← parts inner fuel context []).word
      let next ← peek?
      if next = some '<' ∨ next = some '>' then
        match w, w.plain? with
        | [], _ => redirection none
        | _, some [c] => if c.isDigit then redirection (some (c.toNat - 0x30)) else return .word w
        | _, _ => return .word w
      else return .word w

/-- Reads the texts in place of the input that were announced. -/
def readDocuments (inner : Inner) (fuel : Nat) : Parse Unit := do
  let s ← get
  set { s with awaited := [] }
  s.awaited.forM fun a => do
    let w ← if a.literal then literalDocument a else expandedDocument a
    modify fun s => { s with documents := (a.id, w) :: s.documents }
where
  /-- Reads lines in which there are expansions. -/
  expandedDocument (a : Awaited) : Parse Word := do
    return (← parts inner fuel (.document a true) []).word
  /-- Takes lines as they stand. -/
  literalDocument (a : Awaited) : Parse Word := do
    let lines ← literalLines a fuel
    return [.text lines.flatten true]
  /-- Takes the lines before the one with the mark. -/
  literalLines (a : Awaited) : (fuel : Nat) → Parse (List (List Char))
    | 0 => return []
    | fuel + 1 => do
      if ← closes? a then return []
      else if (← get).rest = [] then return []
      else
        let line ← takeUntil (· = '\n')
        if (← get).rest = [] then return [line]
        else
          advance
          return (line ++ ['\n']) :: (← literalLines a fuel)

mutual

/-- The readers of commands inside words. -/
def inner : (fuel : Nat) → Inner
  | 0 => ⟨return .skip, return .skip⟩
  | fuel + 1 =>
    { closed := do
        let c ← list fuel .branch true .skip
        let t ← token fuel false .nothing
        if t.isOperator ")" then
          readDocuments (inner fuel) fuel
          return c
        else unexpected t (some "\")\"")
      whole := list fuel .branch true .skip }

/-- Reads a token. Newlines are passed over where that is asked for. -/
def token : (fuel : Nat) → (newlines : Bool) → Known → Parse Token
  | 0, _, _ => return .ends
  | fuel + 1, newlines, known => do
    let s ← get
    set { s with pushed := none }
    let t ← match s.pushed with
      | some t => pure t
      | none => fresh (inner fuel) fuel .plain
    match t with
    | .newline =>
      if newlines then
        readDocuments (inner fuel) fuel
        token fuel newlines known
      else return t
    | t =>
      match if known.keywords then t.asKeyword else t with
      | .word w =>
        if s.aliases.isEmpty then return .word w
        else
          let known := { known with aliases := known.aliases || (← followsAlias s.rest.length) }
          match if known.aliases then w.plain? else none with
          | some cs => if ← openAlias? cs then token fuel newlines known else return .word w
          | none => return .word w
      | t => return t

/-- Reads a list of commands; `done` are those before, and `first` says that there are none. -/
def list : (fuel : Nat) → Place → (first : Bool) → (done : Command) → Parse Command
  | 0, _, _, done => return done
  | fuel + 1, place, first, done => do
    let onLine := place == .line
    let t ← token fuel (!onLine) .command
    match t with
    | .newline => do
      readDocuments (inner fuel) fuel
      return done
    | .ends => do
      readDocuments (inner fuel) fuel
      putBack .ends
      return done
    | t => do
      putBack t
      if t.endsList && !onLine && (place == .branch || !first) then return done
      else
        let line := (← get).line
        let c ← andOr fuel
        let t ← token fuel false .nothing
        let c := if t.isOperator "&" then .background line c else c
        let done := if first then c else .sequence done c
        match t with
        | .newline | .ends => do
          putBack t
          list fuel place false done
        | .operator "&" | .operator ";" => list fuel place false done
        | t =>
          if onLine then unexpected t none
          else do
            putBack t
            return done

/-- Reads commands that depend on the outcome of those before. -/
def andOr : (fuel : Nat) → Parse Command
  | 0 => return .skip
  | fuel + 1 => do
    let c ← pipeline fuel false .nothing
    andOrAfter fuel c

/-- Reads what depends on the outcome of a command. -/
def andOrAfter : (fuel : Nat) → Command → Parse Command
  | 0, c => return c
  | fuel + 1, c => do
    match ← token fuel false .nothing with
    | .operator "&&" => do
      let d ← pipeline fuel true .command
      andOrAfter fuel (.both c d)
    | .operator "||" => do
      let d ← pipeline fuel true .command
      andOrAfter fuel (.either c d)
    | t => do
      putBack t
      return c

/-- Reads commands each of which reads what the one before prints. -/
def pipeline : (fuel : Nat) → (newlines : Bool) → Known → Parse Command
  | 0, _, _ => return .skip
  | fuel + 1, newlines, known => do
    let t ← token fuel newlines known
    let negated := t.isKeyword "!"
    if !negated then putBack t
    let c ← command fuel false (if negated then .command else .nothing)
    let more ← stages fuel
    let c := if more.isEmpty then c else .pipeline (c :: more)
    return if negated then .negation c else c

/-- Reads the commands after bars. -/
def stages : (fuel : Nat) → Parse (List Command)
  | 0 => return []
  | fuel + 1 => do
    let t ← token fuel false .nothing
    if t.isOperator "|" then
      let c ← command fuel true .command
      return c :: (← stages fuel)
    else
      putBack t
      return []

/-- Reads one command. -/
def command : (fuel : Nat) → (newlines : Bool) → Known → Parse Command
  | 0, _, _ => return .skip
  | fuel + 1, newlines, known => do
    let t ← token fuel newlines known
    let line := (← get).line
    let closed (c : Command) (closing : String) : Parse Command := do
      let t ← token fuel false .command
      if t.isKeyword closing || t.isOperator closing then
        let rs ← redirects fuel .command
        return if rs.isEmpty then c else .redirected line c rs
      else unexpected t (some ("\"" ++ closing ++ "\""))
    match t with
    | .keyword "if" => do closed (← choice fuel) "fi"
    | .keyword "while" => do
      let test ← list fuel .body true .skip
      closed (.loop true test (← body fuel)) "done"
    | .keyword "until" => do
      let test ← list fuel .body true .skip
      closed (.loop false test (← body fuel)) "done"
    | .keyword "for" => do
      let t ← token fuel false .nothing
      let name := match t with
        | .word w => (w.plain?.filter isName).map String.ofList
        | _ => none
      match name with
      | none => refuse "Bad for loop variable"
      | some name => do
        let words ← eachWords fuel
        closed (.each line name words (← body fuel)) "done"
    | .keyword "case" => do
      match ← token fuel false .nothing with
      | .word w => do
        let t ← token fuel true .command
        if t.isKeyword "in" then
          let branches ← cases fuel
          let rs ← redirects fuel .command
          let c := .select line w branches
          return if rs.isEmpty then c else .redirected line c rs
        else unexpected t (some "\"in\"")
      | t => unexpected t (some "word")
    | .operator "(" => do
      let c ← list fuel .body true .skip
      let t ← token fuel false .command
      if t.isOperator ")" then
        let rs ← redirects fuel .command
        return .subshell line c rs
      else unexpected t (some "\")\"")
    | .keyword "\x7b" => do
      let c ← list fuel .body true .skip
      closed c "\x7d"
    | .word _ | .redirect _ _ => do
      putBack t
      simple fuel line [] [] []
    | t => unexpected t none

/-- Reads the tests and the commands of a choice after its first word. -/
def choice : (fuel : Nat) → Parse Command
  | 0 => return .skip
  | fuel + 1 => do
    let test ← list fuel .body true .skip
    let t ← token fuel false .command
    if t.isKeyword "then" then
      let yes ← list fuel .body true .skip
      let t ← token fuel false .command
      if t.isKeyword "elif" then return .choice test yes (← choice fuel)
      else if t.isKeyword "else" then return .choice test yes (← list fuel .body true .skip)
      else
        putBack t
        return .choice test yes .skip
    else unexpected t (some "\"then\"")

/-- Reads the body of a loop, with the word before it. -/
def body : (fuel : Nat) → Parse Command
  | 0 => return .skip
  | fuel + 1 => do
    let t ← token fuel true .command
    if t.isKeyword "do" then list fuel .body true .skip
    else unexpected t (some "\"do\"")

/-- Reads the words of a loop over words: the arguments of the script unless they are given. -/
def eachWords : (fuel : Nat) → Parse (List Word)
  | 0 => return []
  | fuel + 1 => do
    let t ← token fuel true .command
    if t.isKeyword "in" then
      let (ws, t) ← wordsUpTo fuel
      match t with
      | .newline => do
        readDocuments (inner fuel) fuel
        return ws
      | .operator ";" => return ws
      | t => unexpected t none
    else
      if !t.isOperator ";" then putBack t
      return [[.parameter "@" .value true]]

/-- Reads words and the token after them. -/
def wordsUpTo : (fuel : Nat) → Parse (List Word × Token)
  | 0 => return ([], .ends)
  | fuel + 1 => do
    match ← token fuel false .nothing with
    | .word w => do
      let (ws, t) ← wordsUpTo fuel
      return (w :: ws, t)
    | t => return ([], t)

/-- Reads the branches of a choice by pattern. -/
def cases : (fuel : Nat) → Parse (List Branch)
  | 0 => return []
  | fuel + 1 => do
    let t ← token fuel true .keyword
    if t.isKeyword "esac" then return []
    else
      let t ← if t.isOperator "(" then token fuel false .nothing else pure t
      let ps ← patterns fuel t
      let c ← list fuel .branch true .skip
      let t ← token fuel true .keyword
      if t.isKeyword "esac" then return [.mk ps c]
      else if t.isOperator ";;" then return .mk ps c :: (← cases fuel)
      else unexpected t (some "\";;\"")

/-- Reads patterns, of which the first is a token that was read, up to their bracket. -/
def patterns : (fuel : Nat) → Token → Parse (List Word)
  | 0, _ => return []
  | fuel + 1, t => do
    let w : Word := match t with
      | .word w => w
      | .keyword s => [.text s.toList false]
      | _ => []
    let t ← token fuel false .nothing
    if t.isOperator "|" then
      let t ← token fuel false .nothing
      return w :: (← patterns fuel t)
    else if t.isOperator ")" then return [w]
    else unexpected t (some "\")\"")

/-- Reads the word after an operator that connects a channel. -/
def target : (fuel : Nat) → (channel : Nat) → (operator : String) → Parse Redirect
  | 0, channel, _ => return .copy channel none
  | fuel + 1, channel, operator => do
    let document := operator == "<<" || operator == "<<-"
    let t ← if document then fresh (inner fuel) fuel .mark else token fuel false .nothing
    match t with
    | .word w =>
      match operator with
      | "<" => return .file channel .read w
      | ">" => return .file channel .write w
      | ">|" => return .file channel .force w
      | ">>" => return .file channel .append w
      | "<>" => return .file channel .both w
      | "<&" | ">&" =>
        match w.plain? with
        | some ['-'] => return .copy channel none
        | some [c] =>
          if c.isDigit then return .copy channel (some (c.toNat - 0x30))
          else return .copyNamed channel w
        | _ => return .copyNamed channel w
      | _ => do
        let id := (← get).nextDocument
        let a : Awaited := ⟨id, Word.chars w, operator == "<<-", Word.isQuoted w⟩
        modify fun s => { s with awaited := s.awaited ++ [a], nextDocument := id + 1 }
        return .document channel id
    | t => unexpected t none

/-- Reads what connects the channels of a command. -/
def redirects : (fuel : Nat) → Known → Parse (List Redirect)
  | 0, _ => return []
  | fuel + 1, known => do
    match ← token fuel false known with
    | .redirect channel operator => do
      let r ← target fuel channel operator
      return r :: (← redirects fuel known)
    | t => do
      putBack t
      return []

/-- Reads the rest of a command that is no more than words, of which the ones before are given last
first. -/
def simple : (fuel line : Nat) → List (String × Word) → List Word → List Redirect → Parse Command
  | 0, line, assigned, words, rs => return .simple line assigned.reverse words.reverse rs.reverse
  | fuel + 1, line, assigned, words, rs => do
    match ← token fuel false (if words.isEmpty then .aliased else .nothing) with
    | .word w =>
      match if words.isEmpty then w.assignment? else none with
      | some a => simple fuel line (a :: assigned) words rs
      | none => simple fuel line assigned (w :: words) rs
    | .redirect channel operator => do
      let r ← target fuel channel operator
      simple fuel line assigned words (r :: rs)
    | t =>
      match t, assigned, words, rs with
      | .operator "(", [], [w], [] => do
        let t ← token fuel false .nothing
        if t.isOperator ")" then
          match (w.plain?.filter isName).map String.ofList with
          | none => refuse "Bad function name"
          | some name =>
            if specialCommands.contains name then refuse "Bad function name"
            else
              return .define name (← command fuel true .command)
        else unexpected t (some "\")\"")
      | t, _, _, _ => do
        putBack t
        return .simple line assigned.reverse words.reverse rs.reverse

end

/-- Reads the next complete command; there is none at the end of the script. -/
def next? : Parse (Option Command) := do
  let s ← get
  let fuel := s.fuel
  set { s with pushed := none }
  let c ← list fuel .line true .skip
  match (← get).pushed, c with
  | some .ends, .skip => return none
  | _, c => return some c

end Source

end BuildLayout.Shell
