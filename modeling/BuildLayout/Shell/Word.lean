import BuildLayout.Shell.Source

/-! # Reading words

`Source.parts` reads the parts of a word. How a character is read depends on where it stands, which a
`Context` says: between quotes nothing divides words, in braces the word ends at the closing one, and
so on. Commands inside words are read by the readers of an `Inner`, which are given.
-/

namespace BuildLayout.Shell

/-- Where a character of a word stands. -/
inductive Context where
  | plain
  /-- In a word that marks the end of a text in place of the input: nothing is expanded. -/
  | mark
  /-- In braces. -/
  | braces
  /-- Between double quotes. -/
  | quotes
  /-- In braces between double quotes; `within` says that other quotes were opened there. -/
  | quotedBraces (within : Bool)
  /-- In a text in place of the input, which `awaited` describes. -/
  | document (awaited : Awaited) (lineStart : Bool)
  /-- In an expression, `depth` brackets deep. -/
  | arithmetic (depth : Nat)

namespace Context

/-- What stands here counts as quoted. -/
def isQuoted : Context → Bool
  | .plain | .mark | .braces => false
  | _ => true

/-- The context of a word in braces that are opened here. -/
def inBraces (context : Context) : Context :=
  if context.isQuoted then .quotedBraces false else .braces

/-- A back-slash that quotes this character is dropped. -/
def dropsSlash (context : Context) (c : Char) : Bool :=
  match context with
  | .plain | .mark | .braces => true
  | .quotedBraces _ => "\\`$\"\x7d".toList.contains c
  | .document _ _ => "\\`$".toList.contains c
  | _ => "\\`$\"".toList.contains c

end Context

/-- The parts of a word that is being read, last first, and so are the characters of each text. -/
abbrev Draft := List Part

namespace Draft

/-- One more character. -/
def add (c : Char) (quoted : Bool) : Draft → Draft
  | .text cs q :: parts =>
    if q = quoted then .text (c :: cs) q :: parts else .text [c] quoted :: .text cs q :: parts
  | parts => .text [c] quoted :: parts

/-- More characters. -/
def addAll (cs : List Char) (quoted : Bool) (parts : Draft) : Draft :=
  cs.foldl (fun parts c => add c quoted parts) parts

/-- Quotes are opened. -/
def quote : Draft → Draft
  | .text cs true :: parts => .text cs true :: parts
  | parts => .text [] true :: parts

/-- The word. -/
def word (parts : Draft) : Word :=
  parts.reverse.map fun
    | .text cs quoted => .text cs.reverse quoted
    | part => part

end Draft

/-- The readers of the commands that stand inside words. -/
structure Inner where
  /-- Reads a list of commands with the bracket that closes it. -/
  closed : Parse Command
  /-- Reads a list of commands up to the end. -/
  whole : Parse Command

namespace Source

/-- The characters that end a word. -/
def endsWord (c : Char) : Bool := " \t\n;&|<>()".toList.contains c

/-- Reads the script between back-quotes, after the first. -/
def backquoted (quoted : Bool) : (fuel : Nat) → (done : List Char) → Parse (List Char)
  | 0, _ => refuse "EOF in backquote substitution"
  | fuel + 1, done => do
    match ← peek? with
    | none => refuse "EOF in backquote substitution"
    | some '`' => do
      advance
      return done.reverse
    | some '\\' => do
      advance
      match (← get).rest.head? with
      | none => refuse "EOF in backquote substitution"
      | some c => do
        advance
        if "\\`$".toList.contains c || quoted && c == '"' then backquoted quoted fuel (c :: done)
        else backquoted quoted fuel (c :: '\\' :: done)
    | some c => do
      advance
      backquoted quoted fuel (c :: done)

/-- Runs a reader on another text; the texts in place of the input that it reads are kept. -/
def within (source : List Char) (reader : Parse Command) : Parse Command := do
  let s ← get
  let inside : Source :=
    { rest := source, documents := s.documents, nextDocument := s.nextDocument, aliases := s.aliases }
  match reader.run inside with
  | .error fault => throw fault
  | .ok (c, t) =>
    set { s with documents := t.documents, nextDocument := t.nextDocument }
    return c

/-- Reads commands inside a word; what was put back or announced outside has to wait. -/
def apart (reader : Parse Command) : Parse Command := do
  let s ← get
  set { s with pushed := none, awaited := [] }
  let c ← reader
  modify fun t => { t with pushed := s.pushed, awaited := s.awaited }
  return c

/-- Reads the name of a parameter in braces. -/
def bracedName (fuel : Nat) : Parse (List Char) := do
  match ← peek? with
  | some c =>
    if isNameStart c then takeWhile isNameChar fuel
    else if c.isDigit then takeWhile Char.isDigit fuel
    else if isSpecial c then
      advance
      return [c]
    else return []
  | none => return []

/-- A text in place of the input ends here: the line with its mark is taken. -/
def closes? (a : Awaited) : Parse Bool := do
  let cs := (← get).rest
  let rest := if a.strip then cs.dropWhile (· = '\t') else cs
  if a.mark.isPrefixOf rest then
    match rest.drop a.mark.length with
    | [] =>
      modify fun s => { s with rest := [] }
      return true
    | '\n' :: rest =>
      modify fun s => { s with rest, line := s.line + 1 }
      return true
    | _ => modify fun s => { s with rest }
  else modify fun s => { s with rest }
  return false

mutual

/-- Reads the parts of a word up to its end; `done` holds those before. -/
def parts (inner : Inner) : (fuel : Nat) → Context → (done : Draft) → Parse Draft
  | 0, _, done => return done
  | fuel + 1, context, done => do
    let quoted := context.isQuoted
    let literal (c : Char) : Parse Draft := do
      advance
      parts inner fuel context (done.add c quoted)
    if let .document a true := context then
      if ← closes? a then return done
      else return ← parts inner fuel (.document a false) done
    match ← peek? with
    | none =>
      match context with
      | .braces => refuse "Missing '\x7d'"
      | .quotes | .quotedBraces _ => refuse "Unterminated quoted string"
      | .arithmetic _ => refuse "Missing '))'"
      | _ => return done
    | some '\\' => do
      advance
      match (← get).rest.head? with
      | none => parts inner fuel context (done.add '\\' true)
      | some c => do
        advance
        let done := if context.dropsSlash c then done else done.add '\\' true
        parts inner fuel context (done.add c true)
    | some '\'' =>
      if quoted then literal '\''
      else do
        advance
        let cs ← takeUntil (· = '\'')
        if (← get).rest = [] then refuse "Unterminated quoted string"
        advance
        parts inner fuel context (done.quote.addAll cs true)
    | some '"' =>
      match context with
      | .plain | .mark | .braces => do
        advance
        match ← parts inner fuel .quotes [] with
        | [.parameter "@" .value q] => parts inner fuel context (.parameter "@" .value q :: done)
        | more => parts inner fuel context (more ++ done.quote)
      | .quotes => do
        advance
        return done
      | .quotedBraces within => do
        advance
        parts inner fuel (.quotedBraces !within) done.quote
      | _ => literal '"'
    | some '$' =>
      match context with
      | .mark => literal '$'
      | _ => do
        advance
        match ← dollar inner fuel context with
        | some part => parts inner fuel context (part :: done)
        | none => parts inner fuel context (done.add '$' quoted)
    | some '`' =>
      match context with
      | .mark => literal '`'
      | _ => do
        advance
        let source ← backquoted quoted fuel []
        let body ← within source inner.whole
        parts inner fuel context (.output body quoted :: done)
    | some '\x7d' =>
      match context with
      | .braces | .quotedBraces false => do
        advance
        return done
      | _ => literal '\x7d'
    | some c =>
      match context with
      | .plain | .mark => if endsWord c then return done else literal c
      | .arithmetic depth =>
        if c = '(' then do
          advance
          parts inner fuel (.arithmetic (depth + 1)) (done.add '(' true)
        else if c = ')' then
          match depth with
          | depth + 1 => do
            advance
            parts inner fuel (.arithmetic depth) (done.add ')' true)
          | 0 => do
            advance
            if ← skip? ')' then return done
            else parts inner fuel context (done.add ')' true)
        else literal c
      | .document a _ =>
        if c = '\n' then do
          advance
          parts inner fuel (.document a true) (done.add '\n' true)
        else literal c
      | _ => literal c

/-- Reads what a dollar sign begins; `none` when it stands for itself. -/
def dollar (inner : Inner) : (fuel : Nat) → Context → Parse (Option Part)
  | 0, _ => return none
  | fuel + 1, context => do
    let quoted := context.isQuoted
    match ← peek? with
    | none => return none
    | some '(' => do
      advance
      if ← skip? '(' then
        let source ← parts inner fuel (.arithmetic 0) []
        return some (.arithmetic source.word quoted)
      else
        let body ← apart inner.closed
        return some (.output body quoted)
    | some '\x7b' => do
      advance
      return some (← braced inner fuel context)
    | some c =>
      if isNameStart c then
        let name ← takeWhile isNameChar fuel
        return some (.parameter (String.ofList name) .value quoted)
      else if isSpecial c then
        advance
        return some (.parameter (String.ofList [c]) .value quoted)
      else return none

/-- Reads a parameter in braces, after the opening one. -/
def braced (inner : Inner) : (fuel : Nat) → Context → Parse Part
  | 0, context => return .parameter "" .malformed context.isQuoted
  | fuel + 1, context => do
    let quoted := context.isQuoted
    let word (context : Context) : Parse Word := do return (← parts inner fuel context []).word
    let rest : Parse Word := word context.inBraces
    let malformed (name : List Char) : Parse Part := do
      let _ ← rest
      return .parameter (String.ofList name) .malformed quoted
    let unknown (name : List Char) : Parse Part := do
      skipUncounted
      malformed name
    let use (name : List Char) : Parse Part := do
      let part (use : Use) : Part := .parameter (String.ofList name) use quoted
      let empty ← skip? ':'
      match ← peek? with
      | some '\x7d' =>
        if empty then malformed name
        else do
          advance
          return part .value
      | some '-' => do
        advance
        return part (.default empty (← rest))
      | some '+' => do
        advance
        return part (.alternative empty (← rest))
      | some '=' => do
        advance
        return part (.assign empty (← rest))
      | some '?' => do
        advance
        return part (.demand empty (← rest))
      | some '#' =>
        if empty then malformed name
        else do
          advance
          let longest ← skip? '#'
          return part (.dropStart longest (← word .braces))
      | some '%' =>
        if empty then malformed name
        else do
          advance
          let longest ← skip? '%'
          return part (.dropEnd longest (← word .braces))
      | _ => unknown name
    let size (name : List Char) : Parse Part := do
      if ← skip? '\x7d' then return .parameter (String.ofList name) .size quoted
      else malformed name
    if (← peek?) = some '#' then
      advance
      match ← peek? with
      | none => malformed ['#']
      | some '\x7d' => use ['#']
      | some c =>
        if isNameChar c then size (← bracedName fuel)
        else if isSpecial c && ((joined ((← get).rest.drop 1) 0).1).head? = some '\x7d' then
          advance
          size [c]
        else use ['#']
    else
      match ← bracedName fuel with
      | [] => unknown []
      | name => use name

end

end Source

end BuildLayout.Shell
