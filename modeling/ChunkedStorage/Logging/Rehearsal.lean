import ChunkedStorage.Logging.Logger

/-!
# Rehearsals of logging

Records of every level from several targets, with which a logger can be tried out.
-/

namespace ChunkedStorage

namespace LogRehearsal

/-- A record of a numbered round. -/
def record (round : Nat) (level : LogLevel) (target message : String) (fields : LogFields := []) : LogRecord :=
  { level, target, message, fields := ("round", .number round) :: fields }

def span : LogSpan := ⟨.info, "chunkvault", "upload", [("size", .number 10)]⟩

/-- A record that was made with a plain message. -/
def plain (level : LogLevel) (message : String) : LogRecord := { level, target := "legacy", message, isPlain := true }

def records (round : Nat) : List LogRecord :=
  [ record round .error "chunkvault::reader" "err-cv",
    record round .warn "chunkvault::reader" "warn-cv" [("chunk.index", .number 3)],
    record round .info "chunkvault" "info-cv",
    record round .debug "chunkvault::planner" "debug-cv" [("name", .plain "a b")],
    record round .trace "chunkvault" "trace-cv",
    record round .error "other" "err-other",
    record round .info "other::deep" "info-other",
    record round .debug "other" "debug-other",
    { record round .info "chunkvault" "in-span" with spans := [span] },
    plain .warn "log-warn",
    plain .debug "log-debug" ]

/-- The record that ends a rehearsal. -/
def last : LogRecord := { level := .error, target := "chunkvault", message := "last" }

/-- A crash at no place in particular. -/
def crash : LogRecord := .ofCrash "panicked" "" "" 0 0

/-- Emits a round, and another one with a new filter if there is one, then crashes and the end. -/
def run (l : Logger) (reload? : Option String) (crashes : Nat) : Logger :=
  let l := (records 1).foldl Logger.emit l
  let l := reload?.elim l fun text => (records 2).foldl Logger.emit ((l.reload text).getD l)
  (List.replicate crashes crash ++ [last]).foldl Logger.emit l

/-! ### Lines -/

/-- A line as it is shown: of a crash it is not told where it happened. -/
def shown (format : LogFormat) (line : String) : String :=
  match format with
  | .text => if line = crash.text then s!"{crash.level.name} {crash.message}" else line
  | .json => if line = crash.value.render then { crash with fields := [] }.value.render else line

/-- The lines of the log files that lie in a directory, by the starts of their names. -/
def filesIn (d : Disk) (directory : Path) (sinks : List LogSink) : List (String × List String) :=
  (d.filesBelow directory).filterMap fun (p, _) =>
    match p, d.entry? (directory ++ p) with
    | [name], some (.file number) =>
      let sink? := sinks.find? fun s => s.destination = .file number
      some (LogFile.startOf name, (sink?.map LogSink.lines).getD [])
    | _, _ => none

end LogRehearsal

end ChunkedStorage
