import BuildLayout.CommandLine.Answer
import BuildLayout.CommandLine.Arguments
import BuildLayout.CommandLine.Execute
import BuildLayout.CommandLine.Run
import BuildLayout.Compiler.Invocation
import BuildLayout.Compiler.Run
import BuildLayout.Component.Create
import BuildLayout.Component.Label
import BuildLayout.Component.Name
import BuildLayout.Config.Cache
import BuildLayout.Config.Declared
import BuildLayout.Config.Jsonc
import BuildLayout.Config.Load
import BuildLayout.Config.Options
import BuildLayout.Config.Reference
import BuildLayout.Config.Search
import BuildLayout.Disk.Basic
import BuildLayout.Disk.Change
import BuildLayout.Emit.Located
import BuildLayout.Emit.Rule
import BuildLayout.Emit.Translator
import BuildLayout.Failure
import BuildLayout.Json.Cursor
import BuildLayout.Json.Reader
import BuildLayout.Json.Record
import BuildLayout.Json.Scalar
import BuildLayout.Json.Value
import BuildLayout.Main
import BuildLayout.Number.Binary64
import BuildLayout.Number.Shortest
import BuildLayout.Path.Basic
import BuildLayout.Path.Normal
import BuildLayout.Path.Relative
import BuildLayout.Proofs.CommandLine.Execute
import BuildLayout.Proofs.Compiler.Run
import BuildLayout.Proofs.Component.ClassName
import BuildLayout.Proofs.Component.Compiled
import BuildLayout.Proofs.Component.DisplayName
import BuildLayout.Proofs.Component.Label
import BuildLayout.Proofs.Component.Outcome
import BuildLayout.Proofs.Component.Words
import BuildLayout.Proofs.Component.Written
import BuildLayout.Proofs.Config.Accepted
import BuildLayout.Proofs.Config.Anchored
import BuildLayout.Proofs.Config.Comments
import BuildLayout.Proofs.Config.Consulted
import BuildLayout.Proofs.Config.Cycle
import BuildLayout.Proofs.Config.Dropped
import BuildLayout.Proofs.Config.Extends
import BuildLayout.Proofs.Config.Lines
import BuildLayout.Proofs.Config.Merge
import BuildLayout.Proofs.Config.Nearest
import BuildLayout.Proofs.Config.Overtaken
import BuildLayout.Proofs.Config.Recorded
import BuildLayout.Proofs.Config.Remembered
import BuildLayout.Proofs.Config.Resolved
import BuildLayout.Proofs.Config.Run
import BuildLayout.Proofs.Config.Scan
import BuildLayout.Proofs.Config.Stepwise
import BuildLayout.Proofs.Config.Tidy
import BuildLayout.Proofs.Config.Transparent
import BuildLayout.Proofs.Config.Underway
import BuildLayout.Proofs.Disk.Entry
import BuildLayout.Proofs.Disk.Grown
import BuildLayout.Proofs.Disk.Place
import BuildLayout.Proofs.Emit.Agreement
import BuildLayout.Proofs.Emit.Candidates
import BuildLayout.Proofs.Emit.Located
import BuildLayout.Proofs.Emit.Matching
import BuildLayout.Proofs.Emit.Mirrored
import BuildLayout.Proofs.Emit.Name
import BuildLayout.Proofs.Emit.Places
import BuildLayout.Proofs.Emit.RoundTrip
import BuildLayout.Proofs.Emit.Spelling
import BuildLayout.Proofs.Json.Grammar
import BuildLayout.Proofs.Json.Noticed
import BuildLayout.Proofs.Json.Placed
import BuildLayout.Proofs.Json.Reading
import BuildLayout.Proofs.Json.Scalar
import BuildLayout.Proofs.Path.Absolute
import BuildLayout.Proofs.Path.Ancestors
import BuildLayout.Proofs.Path.Between
import BuildLayout.Proofs.Path.InPlace
import BuildLayout.Proofs.Path.Joined
import BuildLayout.Proofs.Path.Normal
import BuildLayout.Proofs.Path.Relative
import BuildLayout.Proofs.Path.Replay
import BuildLayout.Proofs.Path.Route
import BuildLayout.Proofs.Path.Segments
import BuildLayout.Proofs.Report.RoundTrip
import BuildLayout.Proofs.Settings.Layered
import BuildLayout.Proofs.Settings.Layers
import BuildLayout.Proofs.Settings.Ordered
import BuildLayout.Proofs.Settings.Reading
import BuildLayout.Proofs.Text.Names
import BuildLayout.Proofs.Text.Utf8
import BuildLayout.Report
import BuildLayout.Settings.Basic
import BuildLayout.Settings.Decode
import BuildLayout.Settings.Environment
import BuildLayout.Settings.Escaped
import BuildLayout.Settings.Load
import BuildLayout.Settings.Numeral
import BuildLayout.Settings.Toml.Document
import BuildLayout.Settings.Toml.Number
import BuildLayout.Settings.Toml.Table
import BuildLayout.Settings.Toml.Text
import BuildLayout.Settings.Value
import BuildLayout.Shell.Arithmetic
import BuildLayout.Shell.Builtin
import BuildLayout.Shell.Call
import BuildLayout.Shell.Eval
import BuildLayout.Shell.Expand
import BuildLayout.Shell.Fields
import BuildLayout.Shell.Format
import BuildLayout.Shell.Grammar
import BuildLayout.Shell.Job
import BuildLayout.Shell.Launch
import BuildLayout.Shell.Octets
import BuildLayout.Shell.Pattern
import BuildLayout.Shell.Print
import BuildLayout.Shell.Program
import BuildLayout.Shell.Redirection
import BuildLayout.Shell.Run
import BuildLayout.Shell.Script
import BuildLayout.Shell.Signal
import BuildLayout.Shell.Source
import BuildLayout.Shell.State
import BuildLayout.Shell.Syntax
import BuildLayout.Shell.Test
import BuildLayout.Shell.Utility.Basic
import BuildLayout.Shell.Utility.Edit
import BuildLayout.Shell.Utility.Files
import BuildLayout.Shell.Utility.Find
import BuildLayout.Shell.Utility.Lines
import BuildLayout.Shell.Utility.Regex
import BuildLayout.Shell.Utility.Search
import BuildLayout.Shell.Utility.Values
import BuildLayout.Shell.Word
import BuildLayout.Text.Blank
import BuildLayout.Text.Pieces
import BuildLayout.Text.Quoted
import BuildLayout.Text.Stray
import BuildLayout.Text.Unprintable
import BuildLayout.Text.Utf8
