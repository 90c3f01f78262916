import ChunkedStorage.Backend.Direct
import ChunkedStorage.ChunkedObject
import ChunkedStorage.Reader.Copy
import ChunkedStorage.Upload

/-!
# Rehearsals

A world in memory in which reads and uploads can be tried out. Which calls fail, and how, is written down beforehand;
what is called is noted. Time passes only while somebody pauses.
-/

namespace ChunkedStorage

/-! ### Scripts -/

/-- What the next call of the resolver for a reference comes to. -/
inductive ResolveFault where
  | missing
  | expired
  | future
  /-- The object is closed, and the call never comes back. -/
  | closeObject
  | stated (reason : String)

/-- What the next read of a body comes to. -/
inductive BodyAction where
  | atMost (count : Nat)
  | emptyPiece
  | ending
  | truncated
  | broken (fault : IoFault)
  /-- The object is closed, and the read never comes back. -/
  | closeObject
  | closeThenRead

/-- What the next opening of an object comes to. -/
inductive OpenFault where
  | refused (fault : TransferFault)
  | closeObject
  | scripted (actions : List BodyAction)

/-- A body in memory whose first reads follow a script. -/
structure RehearsedBody where
  ref : String
  /-- How many bytes there were when it was opened. -/
  expected : Nat
  left : MemoryBody
  actions : List BodyAction

/-! ### Notes -/

inductive RemoteEvent where
  | resolved (ref : String) (clock : Duration)
  | opened (ref : String) (s : Span)
  | closed (ref : String) (left : Nat)

namespace RemoteEvent

/-- The text of an event without its time. -/
def text : RemoteEvent → String
  | resolved ref _ => s!"resolve {ref}"
  | opened ref s => s!"open {ref} {s.start}..{s.stop}"
  | closed ref left => s!"close {ref} with {left} left"

def timedText : RemoteEvent → String
  | resolved ref clock => s!"resolve {ref} @{clock.nanos / 1000000}ms"
  | event => event.text

end RemoteEvent

inductive StoreEvent where
  | called (name : String) (index length : Nat)
  | kept (ref : String) (bytes : Bytes)

/-- What an upload is interrupted by. -/
structure UploadScript where
  /-- The chunk that the store refuses. -/
  refused? : Option Nat := none
  /-- The chunk after which the upload is cancelled. -/
  cancelAfter? : Option Nat := none
  isCancelled : Bool := false

structure Rehearsal where
  disk : Disk := .empty
  /-- The objects in memory; of two with one reference the first holds. -/
  objects : List (String × Bytes) := []
  metadata : Metadata := .empty
  resolveFaults : List (String × List (Option ResolveFault)) := []
  openFaults : List (String × List (Option OpenFault)) := []
  /-- The metadata operations that fail. -/
  failing : List String := []
  upload : UploadScript := {}
  /-- The handles that are closed. -/
  closed : List Nat := []
  clock : Duration := ⟨0⟩
  metrics : Metrics := {}
  events : List RemoteEvent := []
  stored : List StoreEvent := []
  reports : List ProgressReport := []

namespace Rehearsal

def note (r : Rehearsal) (event : RemoteEvent) : Rehearsal := { r with events := r.events ++ [event] }

def now (r : Rehearsal) : Timestamp := ⟨r.clock.nanos⟩

def close (r : Rehearsal) (handle : Nat) : Rehearsal := { r with closed := handle :: r.closed }

/-- Takes the next entry of the queue of a reference. -/
def takeNext {α : Type} (ref : String) : List (String × List (Option α)) → Option α × List (String × List (Option α))
  | [] => (none, [])
  | (name, queue) :: rest =>
    if name = ref then (queue.head?.join, (name, queue.tail) :: rest)
    else
      let (next, rest) := takeNext ref rest
      (next, (name, queue) :: rest)

/-! ### Reads -/

/-- The longest that a pause takes: thirty years. -/
def pauseLimit : Duration := .ofSeconds (30 * 365 * 86400)

/-- What the reads through one handle are surrounded by. -/
def surroundings (handle : Nat) : Surroundings Rehearsal where
  isClosed := fun r => r.closed.contains handle
  now := now
  pause := fun d r => { r with clock := ⟨r.clock.nanos + min d.nanos pauseLimit.nanos⟩ }
  count := fun counter n r => { r with metrics := r.metrics.count counter n }

/-- The location of an object is its reference; whether there is such an object is not looked at. -/
def resolve (handle : Nat) (ref : String) (r : Rehearsal) : Reply (Except Cause (Option AccessLocation)) × Rehearsal :=
  let r := r.note (.resolved ref r.clock)
  let (fault?, resolveFaults) := takeNext ref r.resolveFaults
  let r := { r with resolveFaults }
  match fault? with
  | some .missing => (.done (.ok none), r)
  | some .expired => (.done (.ok (some ⟨ref, some r.now⟩)), r)
  | some .future => (.done (.ok (some ⟨ref, some ⟨r.now.nanos + 1⟩⟩)), r)
  | some .closeObject => (.abandoned, r.close handle)
  | some (.stated reason) => (.done (.error (.stated reason)), r)
  | none => (.done (.ok (some ⟨ref, none⟩)), r)

/-- Opens what there is of an object in a span; an object that does not exist has no bytes. -/
def openBody (handle : Nat) (location : AccessLocation) (s : Span) (r : Rehearsal) :
    Reply (Except TransferFault RehearsedBody) × Rehearsal :=
  let ref := location.url
  let r := r.note (.opened ref s)
  let (fault?, openFaults) := takeNext ref r.openFaults
  let r := { r with openFaults }
  let content := s.cut ((r.objects.lookup ref).getD [])
  match fault? with
  | some (.refused fault) => (.done (.error fault), r)
  | some .closeObject => (.abandoned, r.close handle)
  | some (.scripted actions) => (.done (.ok ⟨ref, content.length, ⟨content⟩, actions⟩), r)
  | none => (.done (.ok ⟨ref, content.length, ⟨content⟩, []⟩), r)

/-- Reads on, whatever the script says. -/
def readOn (body : RehearsedBody) (max : Nat) : Delivery × RehearsedBody :=
  let (delivery, left) := body.left.read max
  (delivery, { body with left })

def readBody (handle : Nat) (body : RehearsedBody) (max : Nat) (r : Rehearsal) :
    Reply Delivery × RehearsedBody × Rehearsal :=
  match body.actions with
  | [] =>
    let (delivery, body) := readOn body max
    (.done delivery, body, r)
  | action :: actions =>
    let body := { body with actions }
    match action with
    | .atMost count =>
      let (delivery, body) := readOn body (min (Nat.max count 1) (Nat.max max 1))
      (.done delivery, body, r)
    | .emptyPiece => (.done (.ok (some [])), body, r)
    | .ending => (.done (.ok none), body, r)
    | .truncated => (.done (.error (.truncated (body.expected - body.left.remaining) body.expected)), body, r)
    | .broken fault => (.done (.error (.io fault)), body, r)
    | .closeObject => (.abandoned, body, r.close handle)
    | .closeThenRead =>
      let (delivery, body) := readOn body max
      (.done delivery, body, r.close handle)

theorem readOn_ne_empty (body : RehearsedBody) (max : Nat) : (readOn body max).1 ≠ .ok (some []) :=
  body.left.read_ne_empty max

/-- An empty piece takes an action from the script. -/
theorem readBody_empty {handle max : Nat} {body body' : RehearsedBody} {r r' : Rehearsal}
    (h : readBody handle body max r = (.done (.ok (some [])), body', r')) :
    body'.actions.length < body.actions.length := by
  unfold readBody at h
  split at h
  · simp only [Prod.mk.injEq, Reply.done.injEq] at h
    exact absurd h.1 (readOn_ne_empty body max)
  · next actions =>
    rw [actions]
    split at h <;> simp only [Prod.mk.injEq, Reply.done.injEq, reduceCtorEq, false_and] at h
    · exact absurd h.1 (readOn_ne_empty _ _)
    · simp [← h.2.1]
    · exact absurd h.1 (by simp)
    · exact absurd h.1 (readOn_ne_empty _ _)

/-- The remote side of the reads through one handle. -/
def backend (handle : Nat) (policy : RetryPolicy) : Backend Rehearsal RehearsedBody where
  toSurroundings := surroundings handle
  policy
  resolve := resolve handle
  openBody := openBody handle
  readBody := readBody handle
  closeBody := fun body r => r.note (.closed body.ref body.left.remaining)
  idle := fun body _ => body.actions.length
  idle_readBody := readBody_empty

/-! ### Uploads -/

/-- The cause for which a metadata operation fails, if it is one that fails. -/
def refusal (r : Rehearsal) (operation : String) : Option Cause :=
  if operation ∈ r.failing then some (.stated s!"{operation} unavailable") else none

/-- The metadata in memory, some operations of which fail. -/
def metadataStore : MetadataStore Rehearsal where
  create := fun file r =>
    match r.refusal UploadTarget.fileOperation with
    | some cause => (.error cause, r)
    | none =>
      let (id, metadata) := r.metadata.create file
      (.ok id, { r with metadata })
  createChunks := fun id chunks r =>
    match r.refusal UploadTarget.chunksOperation with
    | some cause => (.error cause, r)
    | none =>
      let (result, metadata) := r.metadata.createChunks id chunks
      (result.mapError .metadata, { r with metadata })
  file? := fun id r =>
    match r.refusal ChunkedObject.fileOperation with
    | some cause => .error cause
    | none => .ok (r.metadata.file? id)
  list := fun id r =>
    match r.refusal ChunkedObject.listOperation with
    | some cause => .error cause
    | none => .ok (r.metadata.list id)

/-- Keeps an object in memory. It is read in pieces of `pieceSize` bytes, each of which is reported. -/
def keepInMemory (pieceSize : Nat) (upload : ChunkUpload) (d : Disk) (r : Rehearsal) :
    Except Cause StoredObject × Disk × Rehearsal :=
  let (pieces, last, _) := upload.body.drain d Disk.readLimit pieceSize
  let r := { r with reports := r.reports ++ ObjectDirectory.reports upload 0 pieces }
  match last with
  | .error fault => (.error (.transfer fault), d, r)
  | .ok _ =>
    let bytes := pieces.flatten
    let ref := s!"obj-{upload.name}"
    let r := { r with objects := (ref, bytes) :: r.objects, stored := r.stored ++ [.kept ref bytes] }
    (.ok ⟨ref, s!"sum-{upload.index}-{bytes.length}"⟩, d, r)

/-- Keeps an object in a directory. -/
def keepInDirectory (o : ObjectDirectory) (upload : ChunkUpload) (d : Disk) (r : Rehearsal) :
    Except Cause StoredObject × Disk × Rehearsal :=
  let (result, made, d) := o.store d Disk.readLimit upload
  (result.mapError .object, d, { r with reports := r.reports ++ made })

/-- A target whose store keeps objects as given, unless the script says otherwise. -/
def target (keep : ChunkUpload → Disk → Rehearsal → Except Cause StoredObject × Disk × Rehearsal) :
    UploadTarget Rehearsal where
  store := fun upload d r =>
    let r := { r with stored := r.stored ++ [.called upload.name upload.index upload.length] }
    if r.upload.refused? = some upload.index then (.error (.stated "backend rejected object"), d, r)
    else
      match keep upload d r with
      | (.error cause, d, r) => (.error cause, d, r)
      | (.ok stored, d, r) =>
        let isCancelled := r.upload.isCancelled || r.upload.cancelAfter? == some upload.index
        (.ok stored, d, { r with upload := { r.upload with isCancelled } })
  report := fun report r => { r with reports := r.reports ++ [report] }
  isCancelled := fun r => r.upload.isCancelled
  count := fun counter n r => { r with metrics := r.metrics.count counter n }
  metadata := metadataStore

/-! ### Files -/

/-- A disk with a directory, and the given files below it. -/
def diskOf (root : String) (files : List (String × Bytes)) : Disk :=
  files.foldl (fun d (name, content) =>
    let path := Disk.join root name
    let d := (d.makeDirectories (Disk.parentText path)).2
    (d.writeFile path content).toOption.getD d) (Disk.empty.makeDirectories root).2

/-- A source in place. Once it is open, its file may be cut to a size, or vanish. -/
def sourceOf (path : String) (bytes : Bytes) (cutTo? : Option Nat) (vanishes : Bool) (r : Rehearsal) :
    Except Failure StagedSource × Rehearsal :=
  let d := (r.disk.writeFile path bytes).toOption.getD r.disk
  let later := if vanishes then d.removeFile path else d.writeFile path (bytes.take (cutTo?.getD bytes.length))
  (StagedSource.ofPath d path, { r with disk := later.toOption.getD d })

/-- Removes an object from the directory, or else from memory; tells whether there was one. -/
def removeObject (o : ObjectDirectory) (ref : String) (r : Rehearsal) : Bool × Rehearsal :=
  match r.disk.removeFile (o.objectPath ref) with
  | .ok disk => (true, { r with disk })
  | .error _ => ((r.objects.lookup ref).isSome, { r with objects := r.objects.filter fun e => e.1 ≠ ref })

/-- Gives the file of an object another size, with zeros behind what it held; tells whether there is one. -/
def resizeObject (o : ObjectDirectory) (ref : String) (size : Nat) (r : Rehearsal) : Bool × Rehearsal :=
  match r.disk.openEntry (o.objectPath ref) with
  | .ok (.file number) =>
    let content := r.disk.content number
    let resized := content.take size ++ List.replicate (size - content.length) 0
    (true, { r with disk := r.disk.setContent number resized })
  | _ => (false, r)

/-! ### Sinks -/

/-- A sink that has room for a number of bytes, if it is bounded, and may refuse to be flushed. -/
def boundedSink (room? : Option Nat) (flushFails : Bool) : Sink Bytes where
  write := fun bytes taken =>
    match room? with
    | none => (.ok (), taken ++ bytes)
    | some room =>
      if taken.length + bytes.length ≤ room then (.ok (), taken ++ bytes)
      else (.error (.stated .other "sink full"), taken ++ bytes.take (room - taken.length))
  flush := fun taken => (if flushFails then .error (.stated .other "flush refused") else .ok (), taken)

end Rehearsal

end ChunkedStorage
