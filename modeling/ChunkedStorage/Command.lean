/-!
# Commands

What can be asked for on the command line: the plan of a file of some size, the storing of a file, and the reading of a
range of a stored one.
-/

namespace ChunkedStorage

structure PlanCommand where
  size : Nat
  /-- The chunk size, if it is not the configured one. -/
  chunkSize? : Option Nat

structure PutCommand where
  file : String
  /-- The directory of the objects. -/
  store : String
  manifest : String
  name? : Option String

/-- Where the objects of a stored file are read from. -/
inductive ObjectSource where
  | template (text : String)
  | directory (path : String)

structure GetCommand where
  manifest : String
  source : ObjectSource
  /-- The header of the range; the whole file if there is none. -/
  range? : Option String
  /-- The file for the bytes; the standard output if there is none. -/
  output? : Option String

inductive Command where
  | plan (c : PlanCommand)
  | put (c : PutCommand)
  | get (c : GetCommand)

/-- Whether bytes of a stored file go to the standard output. -/
def Command.writesStdout : Command → Bool
  | .get c => c.output?.isNone
  | _ => false

/-- A command with the file of its configuration. -/
structure Invocation where
  config? : Option String
  command : Command

end ChunkedStorage
