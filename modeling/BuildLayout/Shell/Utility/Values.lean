import BuildLayout.Shell.Format
import BuildLayout.Shell.Test
import BuildLayout.Shell.Utility.Basic
import BuildLayout.Shell.Utility.Regex

/-! # Programs for values

Programs that print names, texts and numbers that they make of their arguments, and tests.
-/

namespace BuildLayout.Shell.Utility

/-! ## Paths -/

/-- A text without slashes at its end. -/
def dropSlashes (s : String) : String := String.ofList (s.toList.reverse.dropWhile (· = '/')).reverse

/-- The last name of a path; of nothing but slashes it is one slash. -/
def baseName (s : String) : String :=
  let whole := dropSlashes s
  if whole = "" then (if s = "" then "" else "/")
  else String.ofList (whole.toList.reverse.takeWhile (· ≠ '/')).reverse

/-- A path without its last name. -/
def dirName (s : String) : String :=
  let whole := dropSlashes s
  if whole = "" then (if s = "" then "." else "/")
  else
    let before := (whole.toList.reverse.dropWhile (· ≠ '/')).reverse
    if before = [] then "."
    else
      let dir := dropSlashes (String.ofList before)
      if dir = "" then "/" else dir

/-- Prints the last names of paths. -/
def basename : Utility := fun args =>
  withOptions { flags := "az", valued := "s", ordered := true } args 1 fun given => do
    let shown (suffix path : String) : Run Unit := do
      let name := baseName path
      Run.putLine (if name.endsWith suffix ∧ name ≠ suffix then
        String.ofList (name.toList.take (name.length - suffix.length)) else name)
    let many := has given 'a' || has given 's'
    match given.2 with
    | [] => misused "missing operand" 1
    | paths =>
      if many then do
        paths.forM (shown ((valueOf? given 's').getD ""))
        return 0
      else
        match paths with
        | _ :: _ :: extra :: _ => misused ("extra operand '" ++ extra ++ "'") 1
        | path :: rest => do
          shown (rest.headD "") path
          return 0
        | [] => return 0

/-- Prints paths without their last names. -/
def dirname : Utility := fun args =>
  withOptions { flags := "z" } args 1 fun given => do
    if given.2 = [] then misused "missing operand" 1
    else
      given.2.forM fun path => Run.putLine (dirName path)
      return 0

/-- Prints the current directory. -/
def pwd : Utility := fun args => withOptions { flags := "LP" } args 1 fun given => do
  if given.2 ≠ [] then Run.complain "ignoring non-option arguments"
  Run.putLine (narrow (Disk.pathOf (← Run.own).cwd).text)
  return 0

/-! ## Texts -/

/-- Prints its arguments; escapes are known where that is asked for. -/
def echo : Utility := fun args => do
  let isOption (a : String) : Bool :=
    match a.toList with
    | '-' :: c :: cs => (c :: cs).all "neE".toList.contains
    | _ => false
  let options := (args.takeWhile isOption).flatMap String.toList
  let escapes := (options.reverse.find? fun c => c = 'e' || c = 'E') = some 'e'
  let words := " ".intercalate (args.dropWhile isOption)
  let (cs, ended) := if escapes then unescaped (words.length + 1) words.toList else (words.toList, false)
  Run.put 1 (String.ofList cs ++ (if options.contains 'n' || ended then "" else "\n"))
  return 0

/-- Prints by a format. -/
def printf : Utility := fun args => do
  match args with
  | [] => misused "missing operand" 1
  | format :: args => do
    let p := formatted format.toList (args.length + 1) { args }
    p.warnings.reverse.forM Run.complain
    p.fault.forM Run.complain
    Run.put 1 (String.ofList p.out.reverse)
    if let some a := p.args.head? then
      Run.complain ("warning: ignoring excess arguments, starting with '" ++ a ++ "'")
    return if p.failed || p.fault.isSome then 1 else 0

/-- Prints variables of the environment. -/
def printenv : Utility := fun args => do
  let vars ← Run.environment
  match args with
  | [] => do
    vars.forM fun (name, value) => Run.putLine (name ++ "=" ++ value)
    return 0
  | names =>
    forEach names fun name => do
      match vars.lookup name with
      | some value => do
        Run.putLine value
        return 0
      | none => return 1

/-- Tells the time, which stands still. -/
def date : Utility := fun _ => do
  Run.putLine "Thu Jan  1 00:00:00 UTC 1970"
  return 0

/-- Tells the name of the system. -/
def uname : Utility := fun args => do
  Run.putLine (if args = ["-m"] then "x86_64" else "Linux")
  return 0

/-- Tells the name of the user. -/
def whoami : Utility := fun _ => do
  Run.putLine "root"
  return 0

/-- Tells the number of the user, or who that is. -/
def identity : Utility := fun args => do
  Run.putLine (if args.contains "-un" ∨ args.contains "-gn" then "root"
    else if args = [] then "uid=0(root) gid=0(root) groups=0(root)" else "0")
  return 0

/-! ## Numbers -/

/-- A whole number. -/
def integer? (s : String) : Option Int :=
  match s.toList with
  | '-' :: cs => (natural? (String.ofList cs)).map fun n => -(n : Int)
  | '+' :: cs => (natural? (String.ofList cs)).map fun n => (n : Int)
  | _ => (natural? s).map fun n => (n : Int)

/-- Prints numbers from one on in steps. -/
def seq : Utility := fun args => do
  let isNumber (a : String) : Bool := (integer? a).isSome
  let given := args.takeWhile fun a => a.startsWith "-" && !isNumber a
  let (options, numbers) : List String × List String :=
    match given, args with
    | ["-s"], _ :: _ :: rest => (["-s" ++ (args[1]?).getD ""], rest)
    | given, args => (given, args.drop given.length)
  let separator := (options.findSome? fun o =>
    if o.startsWith "-s" then some (String.ofList (o.toList.drop 2)) else none).getD "\n"
  match numbers.find? (!isNumber ·) with
  | some a => misused ("invalid floating point argument: '" ++ a ++ "'") 1
  | none =>
    let range (first step last : Int) : Run Nat := do
      let count := if step = 0 then 0 else ((last - first).fdiv step + 1).toNat
      let texts := (List.range count).map fun (i : Nat) => toString (first + step * (i : Int))
      let width := if options.contains "-w" then texts.foldl (fun n s => max n s.length) 0 else 0
      let texts := texts.map fun s =>
        String.ofList (List.replicate (width - s.length) '0') ++ s
      if texts ≠ [] then Run.putLine (separator.intercalate texts)
      return 0
    match numbers.filterMap integer? with
    | [] => misused "missing operand" 1
    | [last] => range 1 1 last
    | [first, last] => range first 1 last
    | [first, step, last] =>
      if step = 0 then misused "invalid Zero increment value: '0'" 1 else range first step last
    | _ => misused ("extra operand '" ++ (numbers[3]?).getD "" ++ "'") 1

/-- What the value of a sum is, or what is wrong with it. -/
abbrev Sum := Except String (String × List String)

/-- The operators of each strength, weakest first. -/
def sumLevels : List (List String) :=
  [["|"], ["&"], ["<", "<=", "=", "==", "!=", ">=", ">"], ["+", "-"], ["*", "/", "%"], [":"]]

/-- A value that counts as false. -/
def isNothing (s : String) : Bool := s = "" || integer? s = some 0

/-- What the beginning of a text is that fits an expression: the first group, or the number of its
characters. -/
def matched (s pattern : String) : Except String String :=
  match Regex.read ⟨false, false⟩ pattern.toList with
  | none => .error "Unmatched ( or \\("
  | some r =>
    let grouped := ((String.toList pattern).zip (pattern.toList.drop 1)).contains ('\\', '(')
    match Regex.longest r ⟨none, 0, s.toList, []⟩ with
    | none => .ok (if grouped then "" else "0")
    | some p =>
      if grouped then .ok (String.ofList ((p.groups.lookup 1).getD []))
      else .ok (toString p.passed)

/-- What an operator makes of two values. -/
def combine (operator a b : String) : Except String String :=
  let ofBool (b : Bool) : Except String String := .ok (if b then "1" else "0")
  let numbers (f : Int → Int → Except String Int) : Except String String :=
    match integer? a, integer? b with
    | some x, some y => (f x y).map toString
    | _, _ => .error "non-integer argument"
  let order (f : Int → Int → Bool) (g : String → String → Bool) : Except String String :=
    match integer? a, integer? b with
    | some x, some y => ofBool (f x y)
    | _, _ => ofBool (g a b)
  match operator with
  | "|" => .ok (if !isNothing a then a else if isNothing b then "0" else b)
  | "&" => .ok (if isNothing a || isNothing b then "0" else a)
  | "<" => order (fun x y => x < y) fun x y => x < y
  | "<=" => order (fun x y => x ≤ y) fun x y => !(y < x)
  | "=" | "==" => order (fun x y => x = y) fun x y => x = y
  | "!=" => order (fun x y => x ≠ y) fun x y => x ≠ y
  | ">=" => order (fun x y => y ≤ x) fun x y => !(x < y)
  | ">" => order (fun x y => y < x) fun x y => y < x
  | "+" => numbers fun x y => .ok (x + y)
  | "-" => numbers fun x y => .ok (x - y)
  | "*" => numbers fun x y => .ok (x * y)
  | "/" => numbers fun x y => if y = 0 then .error "division by zero" else .ok (x.tdiv y)
  | "%" => numbers fun x y => if y = 0 then .error "division by zero" else .ok (x.tmod y)
  | _ => matched a b

mutual

/-- The value of a sum with the operators of the given levels. -/
def sum : (fuel : Nat) → List (List String) → (before : String) → List String → Sum
  | 0, _, _, _ => .error "syntax error"
  | fuel + 1, [], before, ws => sumAtom fuel before ws
  | fuel + 1, level :: stronger, before, ws => do
    let (a, ws) ← sum fuel stronger before ws
    sumAfter fuel level stronger a ws

/-- What operators of one level make of a first value. -/
def sumAfter : (fuel : Nat) → List String → List (List String) → String → List String → Sum
  | 0, _, _, _, _ => .error "syntax error"
  | fuel + 1, level, stronger, a, ws =>
    match ws with
    | o :: rest =>
      if level.contains o then do
        let (b, rest) ← sum fuel stronger o rest
        sumAfter fuel level stronger (← combine o a b) rest
      else .ok (a, ws)
    | [] => .ok (a, [])

/-- The value of a word, of a function or of a sum in brackets. -/
def sumAtom : (fuel : Nat) → (before : String) → List String → Sum
  | 0, _, _ => .error "syntax error"
  | fuel + 1, before, ws =>
    match ws with
    | [] => .error ("syntax error: missing argument after '" ++ before ++ "'")
    | "(" :: ws => do
      let (a, ws) ← sum fuel sumLevels "(" ws
      match ws with
      | ")" :: ws => return (a, ws)
      | w :: _ => .error ("syntax error: expecting ')' instead of '" ++ w ++ "'")
      | [] => .error ("syntax error: expecting ')' after '" ++ a ++ "'")
    | "length" :: s :: ws => .ok (toString s.length, ws)
    | "match" :: s :: p :: ws => (matched s p).map (·, ws)
    | "substr" :: s :: i :: n :: ws =>
      match integer? i, integer? n with
      | some i, some n =>
        .ok (if i < 1 then "" else String.ofList ((s.toList.drop (i - 1).toNat).take n.toNat), ws)
      | _, _ => .ok ("", ws)
    | "index" :: s :: cs :: ws =>
      .ok (toString ((s.toList.findIdx? cs.toList.contains).elim 0 (· + 1)), ws)
    | "+" :: s :: ws => .ok (s, ws)
    | ")" :: _ => .error "syntax error: unexpected ')'"
    | s :: ws => .ok (s, ws)

end

/-- Prints the value of a sum, a comparison or a match. -/
def expr : Utility := fun args => do
  if args = [] then misused "missing operand" 2
  else
    match sum (16 * args.length + 32) sumLevels "" args with
    | .error message => Run.programFails message 2
    | .ok (_, w :: _) => Run.programFails ("syntax error: unexpected argument '" ++ w ++ "'") 2
    | .ok (s, []) => do
      Run.putLine s
      return if isNothing s then 1 else 0

/-! ## Outcomes -/

/-- A test. -/
def test : Utility := fun args => do
  match ← (Test.value (args.length + 2) args).outcome with
  | .ok b => return if b then 0 else 1
  | .error _ => return 2

/-- Waits for some time, which passes at once. -/
def sleep : Utility := fun args => withOptions {} args 1 fun (_, args) => do
  let isTime (a : String) : Bool :=
    let cs := a.toList
    let cs := if cs.getLast?.any "smhd".toList.contains then cs.dropLast else cs
    cs ≠ [] && cs.all fun c => c.isDigit || c == '.'
  match args, args.find? (!isTime ·) with
  | [], _ => misused "missing operand" 1
  | _, some a => misused ("invalid time interval '" ++ a ++ "'") 1
  | _, none => return 0

end BuildLayout.Shell.Utility
