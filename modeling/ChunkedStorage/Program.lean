import ChunkedStorage.Command.Run
import ChunkedStorage.Command.Usage
import ChunkedStorage.Logging.Logger

/-!
# The program

From the words of a command line to an exit code. Failures are told in one line.
-/

namespace ChunkedStorage.Program

def name : String := "chunkvault"

def versionLine : String := s!"{name} 0.1.0-unofficial\n"

def helpText : String :=
  "Store very large files as bounded chunks and read byte ranges back\n\n" ++
    s!"Usage: {name} [--config <CONFIG>] <COMMAND>\n\n" ++
    "Commands:\n" ++
    "  plan --size <SIZE> [--chunk-size <SIZE>]\n" ++
    "  put <FILE> --store <STORE> --manifest <MANIFEST> [--name <NAME>]\n" ++
    "  get --manifest <MANIFEST> <--url-template <TEMPLATE>|--store <STORE>> [--range <RANGE>] [--output <OUTPUT>]\n"

/-- What is printed for a command line that names no command to run. -/
def textFor : UsageAnswer → String
  | .version => versionLine
  | .help => helpText
  | _ => ""

/-- The exit code of a program that cannot even start its logging. -/
def crashCode : Nat := 101

/-- How a run ends. -/
structure Ending where
  exitCode : Nat
  errorLine? : Option String := none

def Ending.ofFailure (failure : CommandFailure) : Ending :=
  ⟨failure.status.exitCode, some s!"Error: {failure.outputMessage}"⟩

/-- The logging of a command. Log lines stay away from the bytes of a file. -/
def loggingOf (command : Command) (config : Config) : LoggingOptions :=
  { config.logging with appendStdout := config.logging.appendStdout && !command.writesStdout }

/-- Runs a command that is understood. -/
def runInvocation (i : Invocation) (tempDir : String) (level? : Option String) (network : Network) (s : Session) :
    Ending × Session :=
  match i.loadConfig tempDir s.disk with
  | .error failure => (.ofFailure failure, s)
  | .ok config =>
    match Logger.start (loggingOf i.command config) level? name s.now s.disk with
    | (.error _, disk) => ({ exitCode := crashCode }, { s with disk })
    | (.ok _, disk) =>
      match i.command.run config network { s with disk } with
      | (.ok (), s) => ({ exitCode := 0 }, s)
      | (.error failure, s) => (.ofFailure failure, s)

/-- Runs the program; `level?` is the level of logging that the environment asks for. -/
def run (words : List String) (tempDir : String) (level? : Option String) (network : Network) (s : Session) :
    Ending × Session :=
  match Invocation.parse words with
  | .ok i => runInvocation i tempDir level? network s
  | .error answer => ({ exitCode := answer.exitCode }, s.print (textFor answer))

end ChunkedStorage.Program
