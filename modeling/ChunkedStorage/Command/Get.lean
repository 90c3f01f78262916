import ChunkedStorage.Backend.Direct
import ChunkedStorage.ChunkedObject
import ChunkedStorage.Command
import ChunkedStorage.Command.Session
import ChunkedStorage.Manifest
import ChunkedStorage.Reader.Copy

/-!
# Reading a range

The manifest, the source and the range are checked first. Only then the output is created, and the bytes are copied.
-/

namespace ChunkedStorage

/-- Takes whatever is written. -/
def Sink.gathering : Sink Bytes where
  write := fun bytes taken => (.ok (), taken ++ bytes)
  flush := fun taken => (.ok (), taken)

namespace GetCommand

/-! ### Checks -/

def readManifest (g : GetCommand) (d : Disk) : Except CommandFailure Manifest :=
  match d.contentAt g.manifest with
  | .error fault => .error (.reading g.manifest fault)
  | .ok content => (Manifest.parse (Text.decode content)).mapError (.notJson g.manifest)

/-- The backend that reads from a source. -/
def backend (g : GetCommand) (config : Config) (network : Network) : Except Failure (Backend Session Body) :=
  let policy := RetryPolicy.ofConfig config.retry
  match g.source with
  | .template text =>
    match UrlTemplate.create text none, HttpClient.create config.transport with
    | .error failure, _ | _, .error failure => .error failure
    | .ok template, .ok client => .ok (client.backend template (Session.send network) policy Session.surroundings)
  | .directory path => .ok ((ObjectDirectory.mk path).backend (·.disk) policy Session.surroundings)

/-- The range that is asked for. There is nothing to ask for in an empty file, unless a range is given. -/
def request? (g : GetCommand) (totalSize : Nat) : Except Failure (Option RangeRequest) :=
  match g.range? with
  | some header => (RangeRequest.ofHeader header totalSize).map some
  | none => .ok (if totalSize = 0 then none else some ⟨0, .toEnd⟩)

/-- The backend, and the reader of what is asked for. -/
def prepare (g : GetCommand) (config : Config) (network : Network) (s : Session) :
    Except CommandFailure (Backend Session Body × Option (Reader Body)) := do
  let m ← g.readManifest s.disk
  let b ← (g.backend config network).mapError .failed
  let o ← (ChunkedObject.create m.file.totalSize m.chunks).mapError .failed
  let request? ← (g.request? o.totalSize).mapError .failed
  let reader? ← (request?.mapM fun request => o.rangeRead b request s).mapError .failed
  return (b, reader?)

/-! ### Delivery -/

/-- Creates the output, if it is a file, and gives its number. -/
def createOutput (g : GetCommand) (d : Disk) : Except CommandFailure (Option Nat × Disk) :=
  match g.output? with
  | none => .ok (none, d)
  | some path =>
    match d.create path with
    | .error fault => .error (.writing path fault)
    | .ok (number, d) => .ok (some number, d)

/-- Adds bytes to the output. -/
def deliver (number? : Option Nat) (bytes : Bytes) (s : Session) : Session :=
  match number? with
  | some number => { s with disk := s.disk.append number bytes }
  | none => { s with output := s.output ++ bytes }

/-- Copies what a reader reads to the output. -/
def copy (b : Backend Session Body) (r : Reader Body) (number? : Option Nat) (s : Session) :
    Except CommandFailure Unit × Session :=
  if s.isInterrupted then (.error .interrupted, s)
  else
    let (result, _, s, taken) := r.copyTo b .gathering s []
    ((result.mapError .failed).map fun _ => (), deliver number? taken s)

def run (g : GetCommand) (config : Config) (network : Network) (s : Session) :
    Except CommandFailure Unit × Session :=
  match g.prepare config network s with
  | .error failure => (.error failure, s)
  | .ok (b, reader?) =>
    match g.createOutput s.disk with
    | .error failure => (.error failure, s)
    | .ok (number?, disk) =>
      match reader? with
      | none => (.ok (), { s with disk })
      | some r => copy b r number? { s with disk }

end GetCommand

end ChunkedStorage
