import BuildLayout.CommandLine.Execute
import BuildLayout.Shell.Run

/-! # Running the program

The outer layer over `CommandLine.execute`: the compiler is run by the shell of this library, which
knows scripts and the usual programs of a system. Nothing that is proved is about it.
-/

namespace BuildLayout.CommandLine

/-- Does what the arguments of the program ask for. -/
def run (d : Disk) (vars : List (String × String)) (args : List String) : Reply × Disk :=
  execute Shell.launch d vars args

end BuildLayout.CommandLine
