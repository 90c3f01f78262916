import ChunkedStorage.Command.Get
import ChunkedStorage.Command.Plan
import ChunkedStorage.Command.Put

/-!
# Running commands

A command runs with the configuration of its file, or with the usual one.
-/

namespace ChunkedStorage

namespace Invocation

/-- Reads and checks the configuration. -/
def loadConfig (i : Invocation) (tempDir : String) (d : Disk) : Except CommandFailure Config :=
  match i.config? with
  | none => .ok (Config.usual tempDir)
  | some path =>
    match d.contentAt path with
    | .error fault => .error (.reading path fault)
    | .ok content =>
      match Config.parse tempDir (Text.decode content) with
      | .error fault => .error (.notJson path fault)
      | .ok config =>
        match config.validate with
        | .error failure => .error (.failed failure)
        | .ok () => .ok config

end Invocation

def PlanCommand.run (p : PlanCommand) (config : Config) (s : Session) : Except CommandFailure Unit × Session :=
  match p.lines config.chunking with
  | .error failure => (.error (.failed failure), s)
  | .ok lines => (.ok (), s.print (String.join (lines.map fun line => line ++ "\n")))

def Command.run (c : Command) (config : Config) (network : Network) (s : Session) :
    Except CommandFailure Unit × Session :=
  match c with
  | .plan p => p.run config s
  | .put p => p.run config s
  | .get g => g.run config network s

/-- Runs a command with its configuration. -/
def Invocation.run (i : Invocation) (tempDir : String) (network : Network) (s : Session) :
    Except CommandFailure Unit × Session :=
  match i.loadConfig tempDir s.disk with
  | .error failure => (.error failure, s)
  | .ok config => i.command.run config network s

end ChunkedStorage
