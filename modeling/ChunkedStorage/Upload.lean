import ChunkedStorage.Config
import ChunkedStorage.Metadata
import ChunkedStorage.Metrics
import ChunkedStorage.ObjectDirectory

/-!
# Uploads

An upload cuts its source into chunks, stores one after the other and records the result. It can be cancelled between
two chunks. What was stored before a failure stays stored, but is not recorded.
-/

namespace ChunkedStorage

/-- Where uploads go: a store of objects and one of records, on a world of type `σ` beside the disk. -/
structure UploadTarget (σ : Type) where
  store : ChunkUpload → Disk → σ → Except Cause StoredObject × Disk × σ
  report : ProgressReport → σ → σ
  isCancelled : σ → Bool
  count : Counter → Nat → σ → σ
  metadata : MetadataStore σ

structure UploadedFile where
  id : Nat
  file : LogicalFile
  chunks : List Chunk

namespace UploadTarget

variable {σ : Type}

/-! ### Storing -/

/-- The name of an object: that of the file, with the index of the chunk if there are several. -/
def objectName (name : String) (chunked : Bool) (index : Nat) : String :=
  if chunked then s!"{name}.chunk{index}" else name

/-- Stores one chunk, reporting its start and its end. -/
def storeChunk (t : UploadTarget σ) (name : String) (chunked : Bool) (total : Nat) (source : StagedSource)
    (b : ChunkBounds) (d : Disk) (world : σ) : Except Failure Chunk × Disk × σ :=
  let progress : ChunkProgress := ⟨b.index, total⟩
  let world := t.report ⟨progress, 0, 1⟩ world
  match source.window d b.span with
  | .error failure => (.error failure, d, world)
  | .ok w =>
    match t.store ⟨b.index, objectName name chunked b.index, b.length, .window w, progress⟩ d world with
    | (.error cause, d, world) => (.error (.storage b.index cause), d, world)
    | (.ok stored, d, world) =>
      let world := t.report ⟨progress, 1, 1⟩ world
      let world := t.count .bytesStored b.length (t.count .chunksStored 1 world)
      (.ok ⟨b.index, b.start, b.stop, stored.remoteRef, stored.checksum, false⟩, d, world)

/-- Stores the chunks from one on, after `completed` others. -/
def storeChunks (t : UploadTarget σ) (name : String) (chunked : Bool) (total : Nat) (source : StagedSource) :
    (completed : Nat) → List ChunkBounds → Disk → σ → Except Failure (List Chunk) × Disk × σ
  | _, [], d, world => (.ok [], d, world)
  | completed, b :: rest, d, world =>
    if t.isCancelled world then (.error (.cancelled completed total), d, world)
    else
      match t.storeChunk name chunked total source b d world with
      | (.error failure, d, world) => (.error failure, d, world)
      | (.ok c, d, world) =>
        match storeChunks t name chunked total source (completed + 1) rest d world with
        | (.error failure, d, world) => (.error failure, d, world)
        | (.ok cs, d, world) => (.ok (c :: cs), d, world)

/-! ### Recording -/

/-- The names of the metadata operations of an upload. -/
def fileOperation : String := "create_logical_file"

def chunksOperation : String := "create_chunks"

def record (t : UploadTarget σ) (file : LogicalFile) (chunks : List Chunk) (world : σ) :
    Except Failure UploadedFile × σ :=
  match t.metadata.create file world with
  | (.error cause, world) => (.error (.metadata fileOperation cause), world)
  | (.ok id, world) =>
    match t.metadata.createChunks id chunks world with
    | (.error cause, world) => (.error (.metadata chunksOperation cause), world)
    | (.ok (), world) => (.ok ⟨id, file, chunks⟩, world)

/-- Stores the chunks of a source and records them. -/
def storeAndRecord (t : UploadTarget σ) (name : String) (chunked : Bool) (chunkSize : Nat) (source : StagedSource)
    (bounds : List ChunkBounds) (d : Disk) (world : σ) : Except Failure UploadedFile × Disk × σ :=
  match t.storeChunks name chunked bounds.length source 0 bounds d world with
  | (.error failure, d, world) => (.error failure, d, world)
  | (.ok chunks, d, world) =>
    let file : LogicalFile := ⟨name, source.length, chunkSize, chunked, source.checksum?, false⟩
    let (result, world) := t.record file chunks world
    (result, d, world)

/-! ### Whole uploads -/

/-- Uploads a source as chunks of one size. -/
def uploadChunked (t : UploadTarget σ) (name : String) (source : StagedSource) (maxChunkSize : Nat) (d : Disk)
    (world : σ) : Except Failure UploadedFile × Disk × σ :=
  if source.length = 0 then (.error (.configuration .emptyInputChunked), d, world)
  else
    match plan source.length maxChunkSize with
    | .error failure => (.error failure, d, world)
    | .ok bounds => t.storeAndRecord name true maxChunkSize source bounds d world

/-- Uploads a source as one object. -/
def uploadSingle (t : UploadTarget σ) (name : String) (source : StagedSource) (d : Disk) (world : σ) :
    Except Failure UploadedFile × Disk × σ :=
  t.storeAndRecord name false source.length source [⟨0, 0, source.length⟩] d world

/-- Uploads a source, in chunks if it is large enough. -/
def uploadSource (t : UploadTarget σ) (c : ChunkingConfig) (name : String) (source : StagedSource) (d : Disk)
    (world : σ) : Except Failure UploadedFile × Disk × σ :=
  if requiresChunking source.length c.chunkThreshold then t.uploadChunked name source c.maxChunkSize d world
  else t.uploadSingle name source d world

/-- Uploads a source that can be read from any offset. -/
def uploadStaged (t : UploadTarget σ) (c : ChunkingConfig) (name : String) (source : StagedSource) (d : Disk)
    (world : σ) : Except Failure UploadedFile × Disk × σ :=
  match c.validate with
  | .error failure => (.error failure, d, world)
  | .ok () => t.uploadSource c name source d world

/-- Stages a stream, uploads it and removes the copy. -/
def uploadStream (t : UploadTarget σ) (c : ChunkingConfig) (name : String) (stream : InputStream) (declared : Nat)
    (d : Disk) (world : σ) : Except Failure UploadedFile × Disk × σ :=
  match c.validate with
  | .error failure => (.error failure, d, world)
  | .ok () =>
    match StagedSource.stage d stream declared c.stagingDir c.stageBufferSize with
    | (.error failure, d) => (.error failure, d, world)
    | (.ok source, d) =>
      let (result, d, world) := t.uploadSource c name source d world
      (result, source.discard d, world)

end UploadTarget

end ChunkedStorage
