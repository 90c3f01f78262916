import ChunkedStorage.Backend
import ChunkedStorage.Command.Failure
import ChunkedStorage.Http
import ChunkedStorage.Upload

/-!
# Sessions

What a command works on: the disk, the standard output, and what it keeps in memory while it runs. The user may
interrupt it.
-/

namespace ChunkedStorage

structure Session where
  disk : Disk
  /-- What was written to the standard output. -/
  output : Bytes := []
  /-- How many more chunks are stored before the user interrupts the command; `none` if he never does. -/
  patience? : Option Nat := none
  /-- When the command was started. -/
  started : Timestamp := ⟨0⟩
  /-- How long the command has paused. -/
  clock : Duration := ⟨0⟩
  metadata : Metadata := .empty
  metrics : Metrics := {}
  /-- The requests that were sent over HTTP. -/
  requests : List HttpRequest := []

/-- What comes back for a request, after those that were sent before. -/
abbrev Network := (before : List HttpRequest) → HttpRequest → Except String HttpResponse

namespace Session

def now (s : Session) : Timestamp := ⟨s.started.nanos + s.clock.nanos⟩

def isInterrupted (s : Session) : Bool := s.patience? == some 0

def print (s : Session) (text : String) : Session := { s with output := s.output ++ Text.encode text }

def count (counter : Counter) (n : Nat) (s : Session) : Session := { s with metrics := s.metrics.count counter n }

/-- Reads of a session are never closed; pauses take their time. -/
def surroundings : Surroundings Session where
  isClosed := fun _ => false
  now := now
  pause := fun d s => { s with clock := ⟨s.clock.nanos + d.nanos⟩ }
  count := count

def send (n : Network) (request : HttpRequest) (s : Session) : Except String HttpResponse × Session :=
  (n s.requests request, { s with requests := s.requests ++ [request] })

/-- Uploads go to a directory, and are recorded in memory. -/
def target (o : ObjectDirectory) : UploadTarget Session where
  store := fun upload d s =>
    let (result, _, d) := o.store d Disk.readLimit upload
    (result.mapError .object, d, { s with patience? := s.patience?.map (· - 1) })
  report := fun _ s => s
  isCancelled := isInterrupted
  count := count
  metadata :=
    { create := fun file s =>
        let (result, metadata) := MetadataStore.inMemory.create file s.metadata
        (result, { s with metadata })
      createChunks := fun id chunks s =>
        let (result, metadata) := MetadataStore.inMemory.createChunks id chunks s.metadata
        (result, { s with metadata })
      file? := fun id s => MetadataStore.inMemory.file? id s.metadata
      list := fun id s => MetadataStore.inMemory.list id s.metadata }

end Session

end ChunkedStorage
