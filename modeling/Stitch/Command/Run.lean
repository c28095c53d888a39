/-
The program: arguments and an environment in, what is printed and how it ends
out.
-/
import Stitch.Command.Merging
import Stitch.Command.Resolution

namespace Stitch

/-- How a run ended and what it printed. -/
structure RunReport where
  /-- 0 when all went well, 1 for a failure, 2 for arguments that are refused. -/
  exitCode : Nat
  output : String
  /-- What is said of a failure: it on the first line, then its causes. -/
  error : String
  deriving DecidableEq, Repr, Inhabited

/-- The number of the program's version. -/
def programVersion : String := "0.1.0"

def usage : String :=
  "Dependency resolution and call graph stitching for package ecosystems\n\n" ++
  "Usage: weave [OPTIONS] <COMMAND>\n\nCommands: " ++
  String.intercalate ", " (Command.grammar.commands.map (·.name)) ++ "\n"

/-- A text of which the first line begins with a mark, and the others as far in. -/
def setIn (mark : String) (text : String) : String :=
  let blanks := String.ofList (List.replicate mark.length ' ')
  mark ++ String.intercalate ("\n" ++ blanks) (text.splitOn "\n")

/-- The causes of a failure on lines of their own, numbered if there are several. -/
def Failure.causeLines : List String → List String
  | [cause] => [setIn "    " cause]
  | causes => causes.zipIdx.map fun p =>
    setIn (String.ofList (s!"{p.2}: ".toList.leftpad 7 ' ')) p.1

/-- A failure as it is told at the end of a run. -/
def Failure.report (f : Failure) : String :=
  let lines := if f.causes.isEmpty then [] else ["", "Caused by:"] ++ causeLines f.causes
  String.join ((s!"Error: {f.message}" :: lines).map (· ++ "\n"))

variable {m : Type → Type} [Monad m] [FileSystem m]

/-- Runs a command. -/
def Command.run (settings : Settings) : Command → Session m Unit
  | .resolve direction arguments => Session.resolve settings direction arguments
  | .merge arguments => Session.mergeGraphs settings arguments
  | .analyse arguments => Session.analyse settings arguments
  | .convert inputs output => Session.convert inputs output
  | .checkStore store => Session.checkStore settings store
  | .checkUris inputs => Session.checkUris inputs
  | .seedStats arguments => Session.seedStats settings arguments
  | .snapshot metadata output => Session.saveSnapshot settings metadata output
  | .version => Session.printLine s!"Weave v{programVersion}"

/-- Runs an invocation. -/
def Invocation.run (i : Invocation) (env : Environment) : Session m Unit := do
  i.command.run (← Session.loadSettings i.settings env)

/-- Runs the program. -/
def runProgram (arguments : List String) (env : Environment) : m RunReport := do
  match Invocation.ofArguments arguments with
  | .error .help => return { exitCode := 0, output := usage, error := "" }
  | .error .misuse => return { exitCode := 2, output := "", error := usage }
  | .ok invocation =>
    let session : Session m Unit := invocation.run env
    match ← session.run.run "" with
    | (.ok (), output) => return { exitCode := 0, output, error := "" }
    | (.error f, output) => return { exitCode := 1, output, error := f.report }

end Stitch
