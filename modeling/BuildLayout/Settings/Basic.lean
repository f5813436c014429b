import BuildLayout.Compiler.Invocation
import BuildLayout.Settings.Decode

/-! # Settings

`Settings` are what a user may choose: how much is logged and how, how the compiler is started, and
where an output file is opened. `Settings.shape` reads them from a value; every table of them may be
left out as a whole, but a table that is given has to hold all its fields. `Settings.default` is
what holds where nothing is chosen, and `Settings.toValue` the value that it is read from.
-/

namespace BuildLayout

/-- How log lines are written. -/
inductive LogFormat where
  | pretty
  | json
deriving DecidableEq, Repr

/-- The name of a log format. -/
def LogFormat.name : LogFormat → String
  | .pretty => "pretty"
  | .json => "json"

/-- What is logged. -/
structure Logging where
  level : String
  format : LogFormat
deriving DecidableEq, Repr

/-- How an output file is shown. -/
structure OutputView where
  /-- It is opened beside its source. -/
  openToSide : Bool
deriving DecidableEq, Repr

/-- What a user may choose. -/
structure Settings where
  logging : Logging
  command : CompilerCommand
  output : OutputView
deriving DecidableEq, Repr

namespace Settings

/-- What holds where nothing is chosen. -/
def default : Settings where
  logging := ⟨"info", .pretty⟩
  command := ⟨["build", "--watch", "--writeOnlyChanged"], false⟩
  output := ⟨true⟩

/-- The levels of a log. -/
def levels : List String := ["trace", "debug", "info", "warn", "error"]

/-! ## Reading settings -/

/-- The log formats by name. -/
def logFormats : List (String × LogFormat) :=
  [LogFormat.pretty, .json].map fun f => (f.name, f)

/-- What is logged, as a record. -/
def loggingShape : Shape Logging where
  title := "struct LoggingConfig"
  blank := default.logging
  fields := [
    ⟨"level", [], fun l v => v.readText.map fun level => { l with level }⟩,
    ⟨"format", [], fun l v =>
      (v.readVariant "enum LogFormat" logFormats).map fun format => { l with format }⟩]
  optional := []

/-- How the compiler is started, as a record. -/
def commandShape : Shape CompilerCommand where
  title := "struct CommandConfig"
  blank := default.command
  fields := [
    ⟨"parameters", [], fun c v => v.readTexts.map fun parameters => { c with parameters }⟩,
    ⟨"development", [], fun c v => v.readFlag.map fun development => { c with development }⟩]
  optional := []

/-- How an output file is shown, as a record; variables have no capital letters in their keys. -/
def outputShape : Shape OutputView where
  title := "struct OutputConfig"
  blank := default.output
  fields := [
    ⟨"openToSide", ["opentoside"],
      fun _ v => v.readFlag.map fun openToSide => { openToSide }⟩]
  optional := []

/-- Settings as a record. -/
def shape : Shape Settings where
  title := "struct AppConfig"
  blank := default
  fields := [
    ⟨"logging", [], fun s v => (loggingShape.read v).map fun logging => { s with logging }⟩,
    ⟨"command", [], fun s v => (commandShape.read v).map fun command => { s with command }⟩,
    ⟨"output", [], fun s v => (outputShape.read v).map fun output => { s with output }⟩]
  optional := ["logging", "command", "output"]

/-- Settings as a value from which they are read. -/
def toValue (s : Settings) : Value :=
  let scalar := Value.scalar Origin.default
  let table (entries : List (String × Value)) :=
    Value.table Origin.default (Value.sortEntries entries)
  table [
    ("logging", table [
      ("level", scalar (.text s.logging.level)),
      ("format", scalar (.text s.logging.format.name))]),
    ("command", table [
      ("parameters",
        .list Origin.default (s.command.parameters.map fun p => scalar (.text p))),
      ("development", scalar (.flag s.command.development))]),
    ("output", table [
      ("openToSide", scalar (.flag s.output.openToSide))])]

end Settings

end BuildLayout
