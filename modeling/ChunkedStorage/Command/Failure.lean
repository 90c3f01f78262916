import ChunkedStorage.Failure
import ChunkedStorage.Json.Fault

/-!
# Failures of commands

A command fails when one of its own files cannot be read, written or understood, when it is interrupted, or when the
storing or reading that it does fails.
-/

namespace ChunkedStorage

inductive CommandFailure where
  | reading (path : String) (fault : IoFault)
  | writing (path : String) (fault : IoFault)
  | notJson (path : String) (fault : Json.Fault)
  | interrupted
  | failed (failure : Failure)
deriving DecidableEq

namespace CommandFailure

def message : CommandFailure → String
  | reading path _ => s!"Failed to read {path}"
  | writing path _ => s!"Failed to write {path}"
  | notJson path _ => s!"Invalid JSON in {path}"
  | interrupted => "Interrupted"
  | failed failure => failure.message

def status : CommandFailure → Status
  | reading _ fault => if fault.isNotFound then .notFound else .internal
  | writing _ _ => .internal
  | notJson _ _ => .invalidArgument
  | interrupted => .cancelled
  | failed failure => failure.status

/-- The message of the fault at the end of the chain of causes, if there is a cause and it has a message. -/
def root? : CommandFailure → Option String
  | reading _ fault | writing _ fault => some fault.message
  | notJson _ fault => fault.message?
  | interrupted => none
  | failed failure => failure.root?

def outputMessage (failure : CommandFailure) : String :=
  ChunkedStorage.outputMessage failure.status failure.message failure.root?

end CommandFailure

end ChunkedStorage
