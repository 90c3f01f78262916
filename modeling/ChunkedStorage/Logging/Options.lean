import ChunkedStorage.Json.Reader
import ChunkedStorage.Json.Value

/-!
# Logging options

Where log lines go, in which format, and which events are logged.
-/

namespace ChunkedStorage

inductive LogFormat where
  | json
  | text
deriving DecidableEq

namespace LogFormat

/-- The name of the format in configurations. -/
def name : LogFormat → String
  | json => "json"
  | text => "text"

/-- The format as it is displayed. -/
def title : LogFormat → String
  | json => "Json"
  | text => "Text"

def ofName? : String → Option LogFormat
  | "json" => some json
  | "text" => some text
  | _ => none

/-- Reads a format; the empty text stands for the usual one. -/
def read : Json.Reader LogFormat := fun s =>
  match Json.text "a string" s with
  | .error fault => .error fault
  | .ok ("", rest) => .ok (text, rest)
  | .ok (given, rest) =>
    match ofName? given with
    | some format => .ok (format, rest)
    | none =>
      let cause := s!"unknown variant `{given}`, expected `json` or `text`"
      .error (.rejected s!"invalid value, expect empty string, err: {cause}")

end LogFormat

structure LoggingOptions where
  /-- The directory of the log files; the empty text means none. -/
  dir : String := ""
  /-- Which events are logged. -/
  level : Option String := none
  format : LogFormat := .text
  /-- How many rotated files are kept. -/
  maxLogFiles : Nat := 720
  /-- Whether log lines go to the standard output, too. -/
  appendStdout : Bool := true
  filePrefix : String := "chunkvault"
deriving DecidableEq

namespace LoggingOptions

def shape : Json.Shape LoggingOptions where
  title := "struct LoggingOptions"
  fields :=
    [ .optional "dir" (Json.text "a string") fun o dir => { o with dir },
      .optional "level" (Json.nullable (Json.text "a string")) fun o level => { o with level },
      .optional "log_format" LogFormat.read fun o format => { o with format },
      .optional "max_log_files" (Json.word "usize") fun o maxLogFiles => { o with maxLogFiles },
      .optional "append_stdout" Json.boolean fun o appendStdout => { o with appendStdout },
      .optional "file_prefix" (Json.text "a string") fun o filePrefix => { o with filePrefix } ]

def read : Json.Reader LoggingOptions := shape.read {}

def value (o : LoggingOptions) : Json.Value :=
  .object
    [ ("dir", .text o.dir),
      ("level", o.level.elim .null .text),
      ("log_format", .text o.format.name),
      ("max_log_files", .number o.maxLogFiles),
      ("append_stdout", .boolean o.appendStdout),
      ("file_prefix", .text o.filePrefix) ]

end LoggingOptions

end ChunkedStorage
