import Coauthor.Settings
import Coauthor.Simulation.CommandLine
import Coauthor.Simulation.Simulation

/-!
# The program

Plays the scenario that the command line asks for and prints the report.  The exit code
is 2 if the clients did not come to agree with the server or the command line is
refused, and 1 if the simulation failed.
-/

namespace Coauthor.Program

def usage : List String := [
  "Simulates concurrent clients against an in-memory server.",
  "",
  "Options:",
  "  -c, --clients <N>    Number of clients [default: 3]",
  "      --commits <N>    Commits that each client makes on the shared branch [default: 5]",
  "      --edits <N>      Characters that each client types into the document [default: 10]",
  "      --merge          Merge diverging pushes on the server instead of reporting forks",
  "      --disconnect     Drop the connection of the first client halfway through",
  "      --config <DIR>   Directory that holds " ++ Settings.fileName ++ " [default: .]",
  "      --timeout <N>    Give up after this many seconds [default: 30]",
  "      --json           Print the report as JSON",
  "  -h, --help           Print this text"]

/-- The text of the settings file of a directory, if it has one. -/
def readSettings (directory : String) : IO (Option String) := do
  let path := directory ++ "/" ++ Settings.fileName
  try return some (← IO.FS.readFile path)
  catch
    | .noFileOrDirectory .. => return none
    | error => throw error

def fail (message : String) : IO UInt32 := do
  IO.eprintln ("\nError: " ++ message ++ "\n")
  return 1

def simulate (line : CommandLine) (settings : Settings) : IO UInt32 := do
  match Simulation.run line.scenario settings with
  | .error error => fail error.message
  | .ok report =>
      if line.asJson then IO.println report.toJson.renderPretty
      else report.lines.forM IO.println
      return if report.converged then 0 else 2

def run (line : CommandLine) : IO UInt32 := do
  try
    match Settings.ofFile? (← readSettings line.directory) with
    | none => fail (Settings.fileName ++ " cannot be read as settings")
    | some settings => simulate line settings
  catch error => fail error.toString

end Coauthor.Program

def main (arguments : List String) : IO UInt32 := do
  if arguments.contains "-h" || arguments.contains "--help" then
    Coauthor.Program.usage.forM IO.println
    return 0
  match Coauthor.CommandLine.read? arguments with
  | none =>
      Coauthor.Program.usage.forM IO.eprintln
      return 2
  | some line => Coauthor.Program.run line
