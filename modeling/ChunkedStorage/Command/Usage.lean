import ChunkedStorage.Command
import ChunkedStorage.Command.Grammar

/-!
# Usage

The arguments of the program and of its commands. The configuration can be named before and behind the command; the
name behind it counts.
-/

namespace ChunkedStorage

namespace Usage

def config : Argument := ⟨"config", .path, none⟩

/-- The command that shows the help of others. -/
def helpCommand : String := "help"

def program : Grammar where
  options := [config]
  commands := ["plan", "put", "get", helpCommand]
  hasVersion := true

def plan : Grammar where
  options := [⟨"size", .size, none⟩, ⟨"chunk-size", .size, none⟩, config]

def put : Grammar where
  options := [⟨"store", .path, none⟩, ⟨"manifest", .path, none⟩, ⟨"name", .text, none⟩, config]
  positionals := [⟨"file", .path, none⟩]

def get : Grammar where
  options :=
    [ ⟨"manifest", .path, none⟩, ⟨"url-template", .text, none⟩, ⟨"store", .path, none⟩, ⟨"range", .text, none⟩,
      ⟨"output", .path, some 'o'⟩, config ]

/-- The value of an argument that has to be given. -/
def required (values : Values) (name : String) : Except UsageAnswer String :=
  match values.lookup name with
  | some text => .ok text
  | none => .error .missingArgument

def sizeOf (text : String) : Except UsageAnswer Nat := (Size.parse text).mapError fun _ => .unusableValue

/-! ### Commands -/

def planOf (values : Values) : Except UsageAnswer PlanCommand := do
  let size ← sizeOf (← required values "size")
  let chunkSize? ← (values.lookup "chunk-size").mapM sizeOf
  return { size, chunkSize? }

def putOf (values : Values) : Except UsageAnswer PutCommand := do
  let file ← required values "file"
  let store ← required values "store"
  let manifest ← required values "manifest"
  return { file, store, manifest, name? := values.lookup "name" }

/-- The source that is given; there has to be exactly one. -/
def sourceOf (values : Values) : Except UsageAnswer ObjectSource :=
  match values.lookup "url-template", values.lookup "store" with
  | some _, some _ => .error .conflict
  | some text, none => .ok (.template text)
  | none, some path => .ok (.directory path)
  | none, none => .error .missingArgument

def getOf (values : Values) : Except UsageAnswer GetCommand := do
  let source ← sourceOf values
  let manifest ← required values "manifest"
  return { manifest, source, range? := values.lookup "range", output? := values.lookup "output" }

/-- The command of a name, from the words behind it, and the configuration that they name. -/
def commandOf (name : String) (words : List String) : Except UsageAnswer (Command × Option String) := do
  if name = "plan" then
    let values ← plan.values words
    return (.plan (← planOf values), values.lookup config.name)
  else if name = "put" then
    let values ← put.values words
    return (.put (← putOf values), values.lookup config.name)
  else
    let values ← get.values words
    return (.get (← getOf values), values.lookup config.name)

/-- What a request for help on some commands is answered with; commands have no commands of their own. -/
def helpOn : List String → UsageAnswer
  | [] => .help
  | [name] => if name ∈ program.commands then .help else .unknownCommand
  | _ => .unknownCommand

end Usage

/-- Reads the words of a command line, without the name of the program. -/
def Invocation.parse (words : List String) : Except UsageAnswer Invocation := do
  match ← Scan.run Usage.program false (.start Usage.program) words with
  | (s, none) =>
    let s ← s.settle
    .error (if s.values = [] then .nothingGiven else .missingCommand)
  | (s, some (name, rest)) =>
    if name = Usage.helpCommand then .error (Usage.helpOn rest)
    else
      let (command, config?) ← Usage.commandOf name rest
      let s ← s.settle
      return { config? := config? <|> s.values.lookup Usage.config.name, command }

end ChunkedStorage
