import ChunkedStorage.Json.Value
import ChunkedStorage.Logging.Level
import ChunkedStorage.Text.Quoted

/-!
# Log records

What is logged, and the two forms that it is written in: a line of text, and a JSON object on a line. The time of a
record is put in front by whoever writes it.
-/

namespace ChunkedStorage

inductive LogValue where
  | number (n : Nat)
  /-- A text that is quoted in lines of text. -/
  | quoted (text : String)
  | plain (text : String)

namespace LogValue

def text : LogValue → String
  | number n => toString n
  | quoted text => Text.quoted text
  | plain text => text

def value : LogValue → Json.Value
  | number n => .number n
  | quoted text | plain text => .text text

end LogValue

abbrev LogFields := List (String × LogValue)

namespace LogFields

/-- The fields one after another, with blanks between them. -/
def text (fields : LogFields) : String := " ".intercalate (fields.map fun (name, v) => s!"{name}={v.text}")

def members (fields : LogFields) : List (String × Json.Value) := fields.map fun (name, v) => (name, v.value)

end LogFields

/-- A stretch of work that records are part of. -/
structure LogSpan where
  level : LogLevel
  target : String
  name : String
  fields : LogFields

structure LogRecord where
  level : LogLevel
  /-- The part of the program that the record comes from. -/
  target : String
  message : String
  fields : LogFields := []
  /-- The spans that the record is part of, from the outermost on. -/
  spans : List LogSpan := []
  /-- Whether the record was made with plain messages only, which name their target in a field. -/
  isPlain : Bool := false

namespace LogSpan

def text (s : LogSpan) : String := if s.fields = [] then s!"{s.name}:" else s!"{s.name}\x7b{s.fields.text}\x7d:"

def value (s : LogSpan) : Json.Value := .object (s.fields.members ++ [("name", .text s.name)])

end LogSpan

namespace LogRecord

/-- The names of the fields that every record of plain messages has. -/
def plainNames : List String := ["log.target", "log.module_path", "log.file", "log.line"]

/-- The names of the fields of a record. -/
def fieldNames (r : LogRecord) : List String :=
  "message" :: r.fields.map (·.1) ++ if r.isPlain then plainNames else []

/-- The line of a record. -/
def text (r : LogRecord) : String :=
  let spans := if r.spans = [] then "" else String.join (r.spans.map LogSpan.text) ++ " "
  let fields := if r.fields = [] then "" else " " ++ r.fields.text
  s!"{r.level.name} {spans}{r.target}: {r.message}{fields}"

/-- The members of a record that tell where it is in the spans. -/
def spanMembers (r : LogRecord) : List (String × Json.Value) :=
  match r.spans.getLast? with
  | none => []
  | some innermost => [("span", innermost.value), ("spans", .list (r.spans.map LogSpan.value))]

def value (r : LogRecord) : Json.Value :=
  let origin := if r.isPlain then [("log.target", .text r.target)] else []
  .object
    ([ ("level", .text r.level.name),
       ("fields", .object (("message", .text r.message) :: r.fields.members ++ origin)),
       ("target", .text r.target) ] ++ r.spanMembers)

end LogRecord

end ChunkedStorage
