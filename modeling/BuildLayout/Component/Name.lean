import BuildLayout.Component.Label
import BuildLayout.Failure

/-! # Names of components

A component name is a file name and gives a class name, so it is made of ASCII letters, digits,
dots, dashes and underscores, with at least one letter or digit (`Component.isValidName`). The class
name joins its runs of letters and digits, each with its first letter in upper case
(`Component.className`).
-/

namespace BuildLayout.Component

/-- A letter or digit of ASCII. -/
def isWordChar (c : Char) : Bool := Label.isLetter c || Label.isDigit c

/-- A character that a component name may hold. -/
def isNameChar (c : Char) : Bool := isWordChar c || c == '.' || c == '_' || c == '-'

/-- The name can be that of a component. -/
def isValidName (name : String) : Bool :=
  name.toList.all isNameChar && name.toList.any isWordChar

/-- Refuses a name that cannot be that of a component. -/
def validateName (name : String) : Except Failure Unit :=
  if isValidName name then .ok () else .error (.invalidComponentName name)

/-- The word characters, the first one of each run in upper case; `begun` says that the character
before the text is a word character. -/
def joinRuns (begun : Bool) : List Char → List Char
  | [] => []
  | c :: cs =>
    if isWordChar c then (if begun then c else Label.upper c) :: joinRuns true cs
    else joinRuns false cs

/-- The class name of a component. -/
def className (name : String) : String :=
  String.ofList (joinRuns false name.toList)

end BuildLayout.Component
