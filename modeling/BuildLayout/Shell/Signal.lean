/-! # Signals

Signals by number and name, and how the end of a program by one of them is told.
-/

namespace BuildLayout.Shell

/-- The names of the signals that have a number of their own, from one on. -/
def signalNames : List String :=
  ["HUP", "INT", "QUIT", "ILL", "TRAP", "ABRT", "BUS", "FPE", "KILL", "USR1", "SEGV", "USR2", "PIPE",
    "ALRM", "TERM", "STKFLT", "CHLD", "CONT", "STOP", "TSTP", "TTIN", "TTOU", "URG", "XCPU", "XFSZ",
    "VTALRM", "PROF", "WINCH", "IO", "PWR", "SYS"]

/-- The number of a signal that is given by a number or a name; the end of a shell counts as the
signal zero. -/
def signal? (s : String) : Option Nat :=
  let cs := s.toList.map Char.toUpper
  if cs ≠ [] ∧ cs.all Char.isDigit then
    let n := cs.foldl (fun n c => n * 10 + (c.toNat - 0x30)) 0
    if n < 65 then some n else none
  else
    let name := String.ofList cs
    if name = "EXIT" then some 0
    else (signalNames.findIdx? (· = name)).map (· + 1)

/-- The name of a signal. -/
def signalName (n : Nat) : String :=
  match n with
  | 0 => "EXIT"
  | n + 1 => signalNames[n]?.getD (toString (n + 1))

/-- The signals that end no program unless it asks for it. -/
def isIgnored (n : Nat) : Bool := [0, 17, 18, 23, 28].contains n

/-- The signals that stop a program for a while. -/
def isStop (n : Nat) : Bool := [19, 20, 21, 22].contains n

/-- What is told of a program that was ended by a signal; some ends are not told. -/
def endText (n : Nat) : Option String :=
  [(1, "Hangup"), (3, "Quit"), (4, "Illegal instruction"), (5, "Trace/breakpoint trap"),
    (6, "Aborted"), (7, "Bus error"), (8, "Floating point exception"), (9, "Killed"),
    (10, "User defined signal 1"), (11, "Segmentation fault"), (12, "User defined signal 2"),
    (14, "Alarm clock"), (15, "Terminated"), (16, "Stack fault"), (24, "CPU time limit exceeded"),
    (25, "File size limit exceeded"), (26, "Virtual timer expired"), (27, "Profiling timer expired"),
    (29, "I/O possible"), (30, "Power failure"), (31, "Bad system call")].lookup n

end BuildLayout.Shell
