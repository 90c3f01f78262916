/-!
# Status codes

A coarse classification of failures, from which callers pick an HTTP status or the exit code of a process.
-/

namespace ChunkedStorage

inductive Status where
  | invalidArgument
  | rangeNotSatisfiable
  | notFound
  | unavailable
  | storageFailure
  | cancelled
  | internal
  | unknown
deriving DecidableEq

namespace Status

def all : List Status :=
  [invalidArgument, rangeNotSatisfiable, notFound, unavailable, storageFailure, cancelled, internal, unknown]

def name : Status → String
  | invalidArgument => "invalid_argument"
  | rangeNotSatisfiable => "range_not_satisfiable"
  | notFound => "not_found"
  | unavailable => "unavailable"
  | storageFailure => "storage_failure"
  | cancelled => "cancelled"
  | internal => "internal"
  | unknown => "unknown"

/-- The status of a given name; names are compared exactly. -/
def ofName? (text : String) : Option Status := all.find? fun s => s.name == text

def http : Status → Nat
  | invalidArgument => 400
  | rangeNotSatisfiable => 416
  | notFound => 404
  | unavailable => 503
  | storageFailure => 502
  | cancelled => 499
  | internal => 500
  | unknown => 500

def exitCode : Status → Nat
  | invalidArgument => 64
  | rangeNotSatisfiable => 65
  | notFound => 66
  | unavailable => 69
  | storageFailure => 74
  | cancelled => 130
  | internal => 70
  | unknown => 1

end Status

end ChunkedStorage
