import ExprTree.CommandLine.Commands

namespace ExprTree

/-!
# The program

Reads the command line, executes the command and prints what it says: output to
standard output, failures to standard error.  The exit code is 2 for a command
line without a command, 1 for a command that failed, and otherwise 0.
-/

/-- The file that a command reads. -/
def Command.file? : Command → Option String
  | run _ _ _ file _ | dump file | plan _ file => some file
  | demo _ => none

/-- The content of the only file that a command reads, as a function of paths. -/
def Command.readFiles (command : Command) : IO (String → Option String) := do
  match command.file? with
  | none => return fun _ => none
  | some path =>
    try
      let text ← IO.FS.readFile path
      return fun other => if other = path then some text else none
    catch _ => return fun _ => none

/-- Prints a report and gives the exit code. -/
def Report.print (report : Report) : IO UInt32 := do
  IO.print report.output
  match report.failure with
  | none => return 0
  | some failure =>
    IO.eprintln ("Error: " ++ (failure.message?.getD "Invalid document"))
    match failure.help? with
    | some help => IO.eprintln ("help: " ++ help)
    | none => pure ()
    return 1

/-- Executes the command of a command line. -/
def execute (words : List String) : IO UInt32 := do
  match Command.parse words with
  | .ok command => (command.execute (← command.readFiles)).print
  | .error error =>
    if error.isRequest then
      IO.println "Commands: run, dump, plan, demo"
      return 0
    else
      IO.eprintln ("error: " ++ error.kind)
      return 2

end ExprTree

/-- The program. -/
def main (words : List String) : IO UInt32 := ExprTree.execute words
