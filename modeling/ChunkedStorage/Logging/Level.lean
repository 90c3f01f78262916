import ChunkedStorage.Text.Decimal

/-!
# Levels

How severe a log record is, and up to which level records are wanted.
-/

namespace ChunkedStorage

inductive LogLevel where
  | error
  | warn
  | info
  | debug
  | trace
deriving DecidableEq

namespace LogLevel

def all : List LogLevel := [error, warn, info, debug, trace]

/-- The number of a level: the more severe, the smaller. -/
def rank : LogLevel → Nat
  | error => 1
  | warn => 2
  | info => 3
  | debug => 4
  | trace => 5

def name : LogLevel → String
  | error => "ERROR"
  | warn => "WARN"
  | info => "INFO"
  | debug => "DEBUG"
  | trace => "TRACE"

end LogLevel

/-- The least severe level that is wanted; `none` if no record is. -/
abbrev Verbosity := Option LogLevel

namespace Verbosity

def admits (v : Verbosity) (level : LogLevel) : Bool :=
  match v with
  | none => false
  | some least => level.rank ≤ least.rank

/-- The verbosity of a number: zero turns records off. -/
def ofRank? (n : Nat) : Option Verbosity :=
  if n = 0 then some none else (LogLevel.all.find? fun level => level.rank == n).map some

/-- The verbosity of a name, in letters of either case. -/
def ofName? (text : String) : Option Verbosity :=
  let name := String.ofList (text.toList.map Char.toUpper)
  if name = "OFF" then some none
  else if name = "" then some (some .error)
  else (LogLevel.all.find? fun level => level.name == name).map some

def parse? (text : String) : Option Verbosity :=
  match (Text.natural? text.toList).bind ofRank? with
  | some v => some v
  | none => ofName? text

end Verbosity

end ChunkedStorage
