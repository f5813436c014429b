import BuildLayout.Shell.Pattern
import BuildLayout.Shell.Utility.Basic

/-! # Finding files

`find` shows what stands below directories, as far as its tests say.
-/

namespace BuildLayout.Shell.Utility

/-- What was found: its path as it is shown, its depth below the start, and where it stands. -/
structure Find where
  path : String
  depth : Nat
  location : Location

/-- A test of what was found. -/
inductive FindTest where
  | always
  | name (folded : Bool) (p : Pattern)
  | path (p : Pattern)
  | kind (letter : Char)
  | empty
  | negation (t : FindTest)
  | both (a b : FindTest)
  | either (a b : FindTest)

/-- A pattern, none of whose characters is quoted. -/
def patternOf (folded : Bool) (s : String) : Pattern :=
  s.toList.map fun c => (if folded then c.toLower else c, false)

/-- The last name of a path. -/
def Find.name (f : Find) : List Char :=
  if f.path.toList.all (· = '/') then f.path.toList
  else
    let cs := (f.path.toList.reverse.dropWhile (· = '/')).takeWhile (· ≠ '/')
    cs.reverse

/-- The test holds. -/
def FindTest.holds (d : Disk) (f : Find) : FindTest → Bool
  | .always => true
  | .name folded p => p.fits (if folded then f.name.map Char.toLower else f.name)
  | .path p => p.fits f.path.toList
  | .kind letter =>
    match d.node? f.location with
    | some .directory => letter = 'd'
    | some (.file _ _) => letter = 'f'
    | some (.link _) => letter = 'l'
    | none => false
  | .empty =>
    match d.node? f.location with
    | some .directory => (d.below f.location).isEmpty
    | some (.file bytes _) => bytes.isEmpty
    | _ => false
  | .negation t => !t.holds d f
  | .both a b => a.holds d f && b.holds d f
  | .either a b => a.holds d f || b.holds d f

/-- What is asked for: the depths, the test, and what is done. -/
structure FindWish where
  least : Nat := 0
  most : Option Nat := none
  test : FindTest := .always
  removes : Bool := false
  /-- What stands after each path that is shown. -/
  after : String := "\n"

/-- Reads tests from the left. `before` is the test that an `or` was read after, if any, and `negated`
says that the next one is to be false. -/
def findWish : (fuel : Nat) → (before : Option FindTest) → (negated : Bool) → FindWish → List String →
    Except String FindWish
  | 0, _, _, w, _ => .ok w
  | _, before, _, w, [] => .ok { w with test := match before with
    | some t => .either t w.test
    | none => w.test }
  | fuel + 1, before, negated, w, a :: args =>
    let more (t : FindTest) (args : List String) : Except String FindWish :=
      let t := if negated then .negation t else t
      findWish fuel before false { w with test := match w.test with
        | .always => t
        | s => .both s t } args
    let number (s : String) (set : Nat → FindWish) (args : List String) : Except String FindWish :=
      match natural? s with
      | some n => findWish fuel before negated (set n) args
      | none => .error ("Expected a positive decimal integer argument to " ++ a ++ ", but got '" ++ s ++ "'")
    match a, args with
    | "-print", args => findWish fuel before negated w args
    | "-print0", args => findWish fuel before negated { w with after := "\x00" } args
    | "-delete", args => findWish fuel before negated { w with removes := true } args
    | "-empty", args => more .empty args
    | "!", args | "-not", args => findWish fuel before (!negated) w args
    | "-a", args | "-and", args => findWish fuel before negated w args
    | "-o", args | "-or", args =>
      findWish fuel (some (match before with
        | some t => .either t w.test
        | none => w.test)) false { w with test := .always } args
    | "-name", s :: args => more (.name false (patternOf false s)) args
    | "-iname", s :: args => more (.name true (patternOf true s)) args
    | "-path", s :: args | "-wholename", s :: args => more (.path (patternOf false s)) args
    | "-type", s :: args => more (.kind (s.toList.headD ' ')) args
    | "-maxdepth", s :: args => number s (fun n => { w with most := some n }) args
    | "-mindepth", s :: args => number s (fun n => { w with least := n }) args
    | a, args =>
      if args = [] ∧ ["-name", "-iname", "-path", "-wholename", "-type", "-maxdepth", "-mindepth"].contains a then
        .error ("missing argument to \x60" ++ a ++ "'")
      else if a.startsWith "-" then .error ("unknown predicate \x60" ++ a ++ "'")
      else .error ("paths must precede expression: \x60" ++ a ++ "'")

/-- All that stands at a path and below it, a directory before what it holds. -/
def everything (d : Disk) (path : String) (location : Location) : List Find :=
  let below := (d.below location).mergeSort fun a b => isBefore a.1 b.1
  let start := if path.endsWith "/" then path else path ++ "/"
  ⟨path, 0, location⟩ :: below.map fun (names, _) =>
    ⟨start ++ "/".intercalate (names.map narrow), names.length, location ++ names⟩

/-- Shows what stands below directories. -/
def find : Utility := fun args => do
  let isTest (a : String) : Bool := a.startsWith "-" || a = "!" || a = "("
  let paths := args.takeWhile fun a => !isTest a
  match findWish (args.length + 1) none false {} (args.drop paths.length) with
  | .error message => Run.programFails message 1
  | .ok wish =>
    forEach (if paths = [] then ["."] else paths) fun path => do
      let d ← Run.disk
      match d.locate false ⟨widen path⟩ with
      | .error e => Run.programFails ("'" ++ path ++ "': " ++ shortText e) 1
      | .ok location => do
        let found := (everything d path location).filter fun f =>
          wish.least ≤ f.depth && wish.most.all (f.depth ≤ ·) && wish.test.holds d f
        if wish.removes then
          Run.setDisk (found.foldl (fun d f =>
            { d with nodes := d.nodes.filter fun n => !f.location.isPrefixOf n.1 }) d)
        else found.forM fun f => Run.put 1 (f.path ++ wish.after)
        return 0

end BuildLayout.Shell.Utility
