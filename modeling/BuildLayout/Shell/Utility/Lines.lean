import BuildLayout.Shell.Arithmetic
import BuildLayout.Shell.Pattern
import BuildLayout.Shell.Utility.Basic
import BuildLayout.Text.Pieces

/-! # Programs for lines

Programs that read lines or characters from files, or from the input, and print them chosen, ordered or
changed.
-/

namespace BuildLayout.Shell.Utility

open Text (Bytes)

/-- The lines of bytes, each with its newline. -/
def wholeLines (bytes : Bytes) : List Bytes :=
  bytes.foldr (fun (b : UInt8) (lines : List Bytes) =>
    if b = 10 then [b] :: lines
    else
      match lines with
      | [] => [[b]]
      | line :: rest => (b :: line) :: rest) []

/-- Arguments in which a number after a dash is written as a value of the option for lines. -/
def withCount (args : List String) : List String :=
  match args with
  | a :: rest =>
    match a.toList with
    | '-' :: c :: cs =>
      if c.isDigit ∧ cs.all Char.isDigit then ["-n", String.ofList (c :: cs)] ++ rest else args
    | _ => args
  | [] => []

/-- A count that may have a sign before it. -/
def count? (s : String) : Option (Char × Nat) :=
  match s.toList with
  | '-' :: cs => (natural? (String.ofList cs)).map fun n => ('-', n)
  | '+' :: cs => (natural? (String.ofList cs)).map fun n => ('+', n)
  | _ => (natural? s).map fun n => (' ', n)

/-- Prints a part of each file: of its lines, or of its bytes. -/
def partOf (cut : {α : Type} → Char → Nat → List α → List α) : Utility := fun args =>
  let u : Usage :=
    { flags := "qvfF", valued := "nc", long := [("lines", 'n'), ("bytes", 'c'), ("quiet", 'q')] }
  withOptions u (withCount args) 1 fun given => do
    let byBytes := has given 'c'
    let value := ((valueOf? given (if byBytes then 'c' else 'n')).getD "10")
    match count? value with
    | none =>
      Run.programFails
        ("invalid number of " ++ (if byBytes then "bytes" else "lines") ++ ": '" ++ value ++ "'") 1
    | some (sign, n) => do
      let headed := (1 < given.2.length && !has given 'q') || has given 'v'
      let files := if given.2 = [] then ["-"] else given.2
      let (_, status) ← files.foldlM (fun (first, status) file => do
        match ← readFile file with
        | .error e =>
          let s ← Run.programFails ("cannot open '" ++ file ++ "' for reading: " ++ shortText e) 1
          return (first, max status s)
        | .ok bytes => do
          if headed then
            let name := if file = "-" then "standard input" else file
            Run.put 1 ((if first then "" else "\n") ++ "==> " ++ name ++ " <==\n")
          let out := if byBytes then cut sign n bytes else (cut sign n (wholeLines bytes)).flatten
          let _ ← Run.write 1 out
          return (false, status)) (true, 0)
      return status

/-- Prints the first lines; with a minus sign all but the last. -/
def head : Utility := partOf fun sign n lines =>
  if sign = '-' then lines.take (lines.length - n) else lines.take n

/-- Prints the last lines; with a plus sign those from a line on. -/
def tail : Utility := partOf fun sign n lines =>
  if sign = '+' then lines.drop (n - 1) else lines.drop (lines.length - n)

/-- The number of words among bytes. -/
def countWords (bytes : Bytes) : Nat :=
  (bytes.foldl (fun (n, inside) (b : UInt8) =>
    let blank := b == 32 || (9 ≤ b && b ≤ 13)
    (if !blank && !inside then n + 1 else n, !blank)) (0, false)).1

/-- Counts lines, words and bytes. -/
def wc : Utility := fun args =>
  let u : Usage :=
    { flags := "lwcmL", long := [("lines", 'l'), ("words", 'w'), ("bytes", 'c'), ("chars", 'm')] }
  withOptions u args 1 fun given => do
    let all := !(has given 'l' || has given 'w' || has given 'c' || has given 'm')
    let counts (bytes : Bytes) : List Nat :=
      (if all || has given 'l' then [(bytes.filter (· = 10)).length] else []) ++
      (if all || has given 'w' then [countWords bytes] else []) ++
      (if all || has given 'c' || has given 'm' then [bytes.length] else [])
    let files := if given.2 = [] then ["-"] else given.2
    let (rows, status) ← files.foldlM (fun (rows, status) file => do
      match ← readFile file with
      | .ok bytes => return (rows ++ [(counts bytes, file, bytes.length)], status)
      | .error e =>
        return (rows, ← Run.programFails (file ++ ": " ++ shortText e) 1)) ([], 0)
    let columns := (counts []).length
    let sums := rows.foldl (fun (ns : List Nat) row => List.zipWith (· + ·) ns row.1)
      (List.replicate columns 0)
    let most := rows.foldl (fun n row => n + row.2.2) 0
    let width := if columns = 1 ∧ files.length = 1 then 1
      else if given.2 = [] ∨ given.2.contains "-" then 7
      else (toString most).length
    let row (ns : List Nat) (name : String) : Run Unit :=
      Run.putLine (" ".intercalate (ns.map fun n => padLeft width (toString n)) ++
        (if name = "" then "" else " " ++ name))
    rows.forM fun (ns, file, _) => row ns (if given.2 = [] then "" else file)
    if 1 < files.length then row sums "total"
    return status

/-- The number that a line begins with. -/
def leadingNumber (s : String) : Int :=
  match s.toList.dropWhile fun c => c == ' ' || c == '\t' with
  | '-' :: cs => -(Arithmetic.ofDigits 10 (Arithmetic.digitsOf 10 cs) : Int)
  | cs => Arithmetic.ofDigits 10 (Arithmetic.digitsOf 10 cs)

/-- The key of a line: its fields from one on, up to another one if there is one. -/
def sortKey (separator : Option Char) (first : Nat) (last : Option Nat) (s : String) : String :=
  let fields : List (List Char) := match separator with
    | some c => Text.splitOn c s.toList
    | none => s.toList.foldr (fun c fields =>
        match fields with
        | [] => [[c]]
        | field :: rest =>
          if c ≠ ' ' ∧ field.head? = some ' ' then [c] :: field :: rest else (c :: field) :: rest) []
  let chosen := (match last with
    | some n => fields.take n
    | none => fields).drop (first - 1)
  String.ofList (match separator with
    | some c => Text.joinWith c chosen
    | none => chosen.flatten)

/-- Orders lines. -/
def sort : Utility := fun args =>
  let u : Usage :=
    { flags := "rnufbdigMhsVz", valued := "kto"
      long := [("reverse", 'r'), ("numeric-sort", 'n'), ("unique", 'u')] }
  withOptions u args 2 fun given => do
    let (bytes, status) ← gathered (fun f => "cannot read: " ++ f) given.2
    let keySpec := ((valueOf? given 'k').getD "1").toList
    let first := Arithmetic.ofDigits 10 (Arithmetic.digitsOf 10 keySpec)
    let afterFirst := keySpec.dropWhile (· ≠ ',')
    let last := natural? (String.ofList ((afterFirst.drop 1).takeWhile Char.isDigit))
    let letters := keySpec.filter Char.isAlpha
    let separator := (valueOf? given 't').bind fun s => s.toList.head?
    let numeric := has given 'n' || letters.contains 'n'
    let fold := has given 'f' || letters.contains 'f'
    let key (s : String) : String :=
      let k := if has given 'k' then sortKey separator first last s else s
      let k := if has given 'b' then String.ofList (k.toList.dropWhile (· = ' ')) else k
      if fold then String.ofList (k.toList.map Char.toUpper) else k
    let isBelow (a b : String) : Bool :=
      if numeric then leadingNumber (key a) < leadingNumber (key b) else key a < key b
    let backward := has given 'r' || letters.contains 'r'
    let isBefore (a b : String) : Bool :=
      if isBelow a b then !backward
      else if isBelow b a then backward
      else if has given 'u' || has given 's' then true
      else if backward then b ≤ a else a ≤ b
    let lines := (linesOf bytes).mergeSort isBefore
    let lines := if has given 'u' then
      lines.foldr (fun line rest =>
        match rest with
        | next :: more =>
          if !isBelow line next && !isBelow next line then line :: more else line :: rest
        | [] => [line]) []
      else lines
    lines.forM Run.putLine
    return if status = 0 then 0 else 2

/-- Prints lines that stand together once. -/
def uniq : Utility := fun args =>
  withOptions { flags := "cdui" } args 1 fun given =>
    withFiles id (given.2.take 1) fun _ bytes => do
      let same (a b : String) : Bool :=
        if has given 'i' then a.toList.map Char.toLower == b.toList.map Char.toLower else a == b
      let groups := (linesOf bytes).foldr (fun line groups =>
        match groups with
        | (other, n) :: rest =>
          if same line other then (line, n + 1) :: rest else (line, 1) :: groups
        | [] => [(line, 1)]) ([] : List (String × Nat))
      let chosen := groups.filter fun g =>
        (!has given 'd' || 1 < g.2) && (!has given 'u' || g.2 = 1)
      chosen.forM fun (line, n) =>
        Run.putLine (if has given 'c' then padLeft 7 (toString n) ++ " " ++ line else line)
      return 0

/-- The ranges of a list of positions, each from one position to another if it ends. -/
def ranges? (s : String) : Option (List (Nat × Option Nat)) :=
  (Text.splitOn ',' s.toList).mapM fun cs =>
    let first := cs.takeWhile Char.isDigit
    match cs.drop first.length with
    | [] => (natural? (String.ofList first)).map fun n => (n, some n)
    | '-' :: last =>
      if first = [] ∧ last = [] then none
      else if last = [] then some ((natural? (String.ofList first)).getD 1, none)
      else
        (natural? (String.ofList last)).map fun n =>
          ((natural? (String.ofList first)).getD 1, some n)
    | _ => none

/-- The members of a list at the positions of ranges, counted from one on. -/
def chosen {α : Type} (ranges : List (Nat × Option Nat)) (xs : List α) : List α :=
  (xs.zipIdx.filter fun (_, i) => ranges.any fun (a, b) => a ≤ i + 1 && b.all (i + 1 ≤ ·)).map (·.1)

/-- Prints parts of lines. -/
def cut : Utility := fun args =>
  let u : Usage := { flags := "sn", valued := "bcfd" }
  withOptions u args 1 fun given => do
    let positions := (valueOf? given 'c').or (valueOf? given 'b')
    match positions, valueOf? given 'f' with
    | none, none =>
      misused "you must specify a list of bytes, characters, or fields" 1
    | some s, _ =>
      match ranges? s with
      | none => misused ("invalid byte/character position '" ++ s ++ "'") 1
      | some ranges =>
        withFiles id given.2 fun _ bytes => do
          (linesOf bytes).forM fun line =>
            Run.putLine (String.ofList (chosen ranges line.toList))
          return 0
    | none, some s =>
      match ranges? s with
      | none => misused ("invalid field value '" ++ s ++ "'") 1
      | some ranges =>
        let c := (((valueOf? given 'd').getD "\t").toList).headD '\t'
        withFiles id given.2 fun _ bytes => do
          (linesOf bytes).forM fun line => do
            if line.toList.contains c then
              Run.putLine (String.ofList
                (Text.joinWith c (chosen ranges (Text.splitOn c line.toList))))
            else if !has given 's' then Run.putLine line
          return 0

/-- The characters of a set: ranges and kinds are written out. -/
def members : (fuel : Nat) → List Char → List Char
  | 0, _ => []
  | _, [] => []
  | fuel + 1, '[' :: ':' :: cs =>
    let name := String.ofList (cs.takeWhile Char.isAlpha)
    match Pattern.classes.lookup name with
    | some isIn =>
      ((List.range 256).map Char.ofNat).filter isIn ++ members fuel (cs.drop (name.length + 2))
    | none => '[' :: members fuel (':' :: cs)
  | fuel + 1, '\\' :: c :: cs =>
    let c := ([('n', '\n'), ('t', '\t'), ('r', '\r'), ('0', '\x00')].lookup c).getD c
    c :: members fuel cs
  | fuel + 1, a :: '-' :: b :: cs =>
    ((List.range (b.toNat + 1 - a.toNat)).map fun i => Char.ofNat (a.toNat + i)) ++ members fuel cs
  | fuel + 1, c :: cs => c :: members fuel cs

/-- Replaces, drops or joins characters of the input. -/
def tr : Utility := fun args =>
  withOptions { flags := "cCdst" } args 1 fun given => do
    match given.2 with
    | [] => misused "missing operand" 1
    | first :: rest =>
      let complement := has given 'c' || has given 'C'
      let set := members (first.length + 1) first.toList
      let isIn (c : Char) : Bool := set.contains c != complement
      let target := rest.head?.map fun s => members (s.length + 1) s.toList
      if rest = [] ∧ !has given 'd' ∧ !has given 's' then
        misused ("missing operand after '" ++ first ++
          "'\nTwo strings must be given when translating.") 1
      else
        let input := (ofBytes (← Run.takeInput)).toList
        let squeezed (isIn : Char → Bool) (cs : List Char) : List Char :=
          cs.foldr (fun c rest => if isIn c && rest.head? = some c then rest else c :: rest) []
        let replaced (target : List Char) (c : Char) : Char :=
          if !isIn c then c
          else if complement then target.getLast?.getD c
          else target[(set.findIdx (· = c))]?.getD (target.getLast?.getD c)
        let out :=
          if has given 'd' then
            let kept := input.filter (!isIn ·)
            match has given 's', target with
            | true, some target => squeezed target.contains kept
            | _, _ => kept
          else
            match target with
            | none => squeezed isIn input
            | some target =>
              let cs := input.map (replaced target)
              if has given 's' then squeezed target.contains cs else cs
        Run.put 1 (String.ofList out)
        return 0

/-- Prints the input, and writes it to files. -/
def tee : Utility := fun args =>
  withOptions { flags := "aip" } args 1 fun given => do
    let bytes ← Run.takeInput
    let _ ← Run.write 1 bytes
    forEach given.2 fun file => do
      let d ← Run.disk
      let old := if has given 'a' then
        match d.read ⟨widen file⟩ with
        | .ok old => old
        | .error _ => []
        else []
      match d.writeFile ⟨widen file⟩ (old ++ bytes) false with
      | .ok d =>
        Run.setDisk d
        return 0
      | .error e => Run.programFails (file ++ ": " ++ shortText e) 1

/-- Prints the characters of each line backward. -/
def rev : Utility := fun args =>
  withFiles id args fun _ bytes => do
    (linesOf bytes).forM fun line => Run.putLine (String.ofList line.toList.reverse)
    return 0

/-- Prints the lines of each file backward. -/
def tac : Utility := fun args =>
  withFiles (fun f => "failed to open '" ++ f ++ "' for reading") args fun _ bytes => do
    let _ ← Run.write 1 (wholeLines bytes).reverse.flatten
    return 0

/-- Prints lines with their numbers; empty ones have none. -/
def nl : Utility := fun args =>
  withOptions { valued := "bws" } args 1 fun given => do
    let (bytes, status) ← gathered id given.2
    let all := valueOf? given 'b' = some "a"
    let _ ← (linesOf bytes).foldlM (fun n line => do
      if line = "" ∧ !all then
        Run.putLine "       "
        return n
      else
        Run.putLine (padLeft 6 (toString n) ++ "\t" ++ line)
        return n + 1) 1
    return status

end BuildLayout.Shell.Utility
