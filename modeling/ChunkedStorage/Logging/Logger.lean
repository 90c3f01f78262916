import ChunkedStorage.Logging.File
import ChunkedStorage.Logging.Filter
import ChunkedStorage.Logging.Options

/-!
# Loggers

A logger hands every record that its filter wants to its sinks: the standard output, a file for all records and a file
for errors. The filter can be changed while the program runs.
-/

namespace ChunkedStorage

inductive LogDestination where
  | stdout
  | file (number : Nat)
deriving DecidableEq

structure LogSink where
  destination : LogDestination
  verbosity : Verbosity
  /-- What was written so far. -/
  lines : List String := []

/-- Why logging cannot start. -/
inductive LoggingFault where
  | file (fault : IoFault)
  | level (text : String)

structure Logger where
  filter : LogFilter
  format : LogFormat
  sinks : List LogSink

namespace LoggingOptions

/-- The filter of a program that nothing is configured for. -/
def usualLevel : String := "info"

/-- The text of the filter; the environment may give one. -/
def levelText (o : LoggingOptions) (environment? : Option String) : String :=
  o.level.getD (environment?.getD usualLevel)

def stdoutSinks (o : LoggingOptions) : List LogSink := if o.appendStdout then [⟨.stdout, some .trace, []⟩] else []

/-- The start of the names of the files for errors. -/
def errorPrefix (o : LoggingOptions) : String := o.filePrefix ++ "-err"

/-- Opens the sinks that the options ask for. -/
def openSinks (o : LoggingOptions) (now : Timestamp) (d : Disk) : Except LoggingFault (List LogSink) × Disk :=
  if o.dir = "" then (.ok o.stdoutSinks, d)
  else
    match LogFile.openFor d o.dir o.filePrefix now with
    | (.error fault, d) => (.error (.file fault), d)
    | (.ok all, d) =>
      match LogFile.openFor d o.dir o.errorPrefix now with
      | (.error fault, d) => (.error (.file fault), d)
      | (.ok errors, d) =>
        (.ok (o.stdoutSinks ++ [⟨.file all, some .trace, []⟩, ⟨.file errors, some .error, []⟩]), d)

/-- The options of test programs, which the environment may change. -/
def forTests (dir? level? : Option String) : LoggingOptions where
  dir := dir?.getD "/tmp/__unittest_logs"
  level := some (level?.getD "debug,hyper=warn,hyper_util=warn,tower=warn,reqwest=warn,h2=info,axum=info")
  appendStdout := false

end LoggingOptions

namespace Logger

/-! ### Writing -/

/-- The line of a record. -/
def line (l : Logger) (r : LogRecord) : String :=
  match l.format with
  | .text => r.text
  | .json => r.value.render

/-- Writes a record that is wanted to the sinks that take it. -/
def emit (l : Logger) (r : LogRecord) : Logger :=
  if l.filter.admits r then
    let line := l.line { r with spans := r.spans.filter l.filter.admitsSpan }
    let write := fun (s : LogSink) => if s.verbosity.admits r.level then { s with lines := s.lines ++ [line] } else s
    { l with sinks := l.sinks.map write }
  else l

/-! ### Starting -/

/-- The part of the program that logs about logging. -/
def target : String := "chunkvault_common_telemetry::logging"

/-- Starts the logging of a program. -/
def start (o : LoggingOptions) (environment? : Option String) (app : String) (now : Timestamp) (d : Disk) :
    Except LoggingFault Logger × Disk :=
  match o.openSinks now d with
  | (.error fault, d) => (.error fault, d)
  | (.ok sinks, d) =>
    match LogFilter.parse? (o.levelText environment?) with
    | none => (.error (.level (o.levelText environment?)), d)
    | some filter =>
      let started : LogRecord := ⟨.debug, target, "logging initialized", [("app", .quoted app)], [], false⟩
      (.ok (emit ⟨filter, o.format, sinks⟩ started), d)

/-- Starts the logging of test programs. -/
def startTests (dir? level? : Option String) (now : Timestamp) (d : Disk) : Except LoggingFault Logger × Disk :=
  let o := LoggingOptions.forTests dir? level?
  match start o none "unittest" now d with
  | (.error fault, d) => (.error fault, d)
  | (.ok l, d) => (.ok (l.emit ⟨.info, target, s!"logs dir = {o.dir}", [], [], false⟩), d)

/-- How many writers are kept alive by the program that started the logging. -/
def writers (l : Logger) : Nat := l.sinks.length

/-- Changes the filter, unless the text is none. -/
def reload (l : Logger) (text : String) : Option Logger :=
  (LogFilter.parse? text).map fun filter => { l with filter }

end Logger

/-- The record of a crash, with the calls that led there and the place in the program. -/
def LogRecord.ofCrash (message calls file : String) (line column : Nat) : LogRecord where
  level := .error
  target := "chunkvault_common_telemetry::panic_hook"
  message := message
  fields :=
    [ ("backtrace", .plain calls), ("panic.file", .quoted file), ("panic.line", .number line),
      ("panic.column", .number column) ]

end ChunkedStorage
