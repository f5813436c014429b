/-! # Commands of a script

A script is a list of commands, and a `Command` is a tree. Its words are kept as they were written, in
parts: what stands between quotes is marked, and what is expanded when the script runs is a part of
its own, which may hold words and commands again. Texts that are given to a command in place of its
input are kept apart, under numbers.
-/

namespace BuildLayout.Shell

/-- How a file is opened for a command. -/
inductive OpenMode where
  /-- For reading. -/
  | read
  /-- For writing, without what is in it. -/
  | write
  /-- For writing even where files are protected. -/
  | force
  /-- For writing at its end. -/
  | append
  /-- For reading and writing. -/
  | both
deriving DecidableEq, Repr

mutual

/-- A part of a word. -/
inductive Part where
  /-- Characters; without any, quotes that were opened. -/
  | text (cs : List Char) (quoted : Bool)
  | parameter (name : String) (use : Use) (quoted : Bool)
  /-- What a command prints. -/
  | output (body : Command) (quoted : Bool)
  /-- The value of an expression. -/
  | arithmetic (source : List Part) (quoted : Bool)

/-- What is done with the value of a parameter. Where a word stands for a missing value, `empty` says
that an empty value counts as missing. -/
inductive Use where
  | value
  | size
  | default (empty : Bool) (word : List Part)
  | alternative (empty : Bool) (word : List Part)
  | assign (empty : Bool) (word : List Part)
  | demand (empty : Bool) (message : List Part)
  | dropStart (longest : Bool) (pattern : List Part)
  | dropEnd (longest : Bool) (pattern : List Part)
  /-- There is no such use. -/
  | malformed

/-- What one of the numbered channels of a command is connected to. -/
inductive Redirect where
  | file (channel : Nat) (mode : OpenMode) (name : List Part)
  /-- The same as another channel, or nothing. -/
  | copy (channel : Nat) (source : Option Nat)
  /-- The same as the channel that a word names. -/
  | copyNamed (channel : Nat) (source : List Part)
  /-- A text that is kept under a number. -/
  | document (channel : Nat) (id : Nat)

/-- The patterns of a choice by pattern, and what they choose. -/
inductive Branch where
  | mk (patterns : List (List Part)) (body : Command)

/-- A command, with the line on which it begins where messages name it. -/
inductive Command where
  | skip
  | simple (line : Nat) (assigned : List (String × List Part)) (words : List (List Part))
    (redirects : List Redirect)
  | sequence (first second : Command)
  | both (first second : Command)
  | either (first second : Command)
  | negation (body : Command)
  | pipeline (stages : List Command)
  | background (line : Nat) (body : Command)
  | subshell (line : Nat) (body : Command) (redirects : List Redirect)
  | redirected (line : Nat) (body : Command) (redirects : List Redirect)
  | choice (test yes no : Command)
  /-- The body is run as long as the test succeeds, or fails, as is `wanted`. -/
  | loop (wanted : Bool) (test body : Command)
  | each (line : Nat) (name : String) (words : List (List Part)) (body : Command)
  | select (line : Nat) (word : List Part) (branches : List Branch)
  | define (name : String) (body : Command)

end

/-- A word as it was written. -/
abbrev Word := List Part

/-- The characters of a part outside expansions. -/
def Part.chars : Part → List Char
  | .text cs _ => cs
  | _ => []

/-- Something in the part was quoted. -/
def Part.isQuoted : Part → Bool
  | .text _ quoted => quoted
  | .parameter _ _ quoted => quoted
  | .output _ quoted => quoted
  | .arithmetic _ quoted => quoted

namespace Word

/-- The characters of a word outside expansions, without quotes. -/
def chars (w : Word) : List Char := w.flatMap Part.chars

/-- Something in the word was quoted. -/
def isQuoted (w : Word) : Bool := w.any Part.isQuoted

/-- The characters of a word that was written without quotes and expansions. -/
def plain? : Word → Option (List Char)
  | [.text cs false] => some cs
  | _ => none

end Word

/-- A character that a name begins with. -/
def isNameStart (c : Char) : Bool := c.isAlpha || c == '_'

/-- A character of a name after its first. -/
def isNameChar (c : Char) : Bool := c.isAlphanum || c == '_'

/-- The characters are a name. -/
def isName (cs : List Char) : Bool := cs.head?.any isNameStart && cs.all isNameChar

/-- A parameter that one character names which is no letter. -/
def isSpecial (c : Char) : Bool := "@*#?-$!".toList.contains c || c.isDigit

/-- The name and the value of an assignment that a word spells. -/
def Word.assignment? : Word → Option (String × Word)
  | .text cs false :: rest =>
    let name := cs.takeWhile (· ≠ '=')
    match cs.drop name.length with
    | [] => none
    | _ :: value =>
      if isName name then
        some (String.ofList name, if value = [] then rest else .text value false :: rest)
      else none
  | _ => none

end BuildLayout.Shell
