import ChunkedStorage.Chunk
import ChunkedStorage.Fault

/-!
# Metadata

Where logical files and their chunks are recorded. Files are numbered from one on, and a number is never used again.
-/

namespace ChunkedStorage

/-- The records kept in memory. -/
structure Metadata where
  /-- The number of the last file. -/
  last : Nat
  files : List (Nat × LogicalFile)
  chunks : List (Nat × List Chunk)

namespace Metadata

def empty : Metadata := ⟨0, [], []⟩

/-- Records a file and gives its number. -/
def create (m : Metadata) (file : LogicalFile) : Nat × Metadata :=
  (m.last + 1, { m with last := m.last + 1, files := (m.last + 1, file) :: m.files })

def file? (m : Metadata) (id : Nat) : Option LogicalFile := m.files.lookup id

/-- All chunks recorded for a file, deleted ones included. -/
def recorded (m : Metadata) (id : Nat) : List Chunk := (m.chunks.lookup id).getD []

def setRecorded (m : Metadata) (id : Nat) (chunks : List Chunk) : Metadata :=
  { m with chunks := (id, chunks) :: m.chunks.filter fun e => e.1 ≠ id }

/-- Adds chunks one by one until an index is taken. -/
def addChunks (id : Nat) : (known new : List Chunk) → Except MetadataFault Unit × List Chunk
  | known, [] => (.ok (), known)
  | known, c :: rest =>
    if known.any (·.index == c.index) then (.error (.duplicateChunk id c.index), known)
    else addChunks id (known ++ [c]) rest

/-- Orders chunks by index. -/
def sorted (chunks : List Chunk) : List Chunk := chunks.mergeSort fun a b => a.index ≤ b.index

/-- Records chunks of a file. A taken index ends it; the chunks before it stay recorded, in the order they came. -/
def createChunks (m : Metadata) (id : Nat) (chunks : List Chunk) : Except MetadataFault Unit × Metadata :=
  if (m.file? id).isNone then (.error (.unknownFile id), m)
  else
    match addChunks id (m.recorded id) chunks with
    | (.error fault, known) => (.error fault, m.setRecorded id known)
    | (.ok (), known) => (.ok (), m.setRecorded id (sorted known))

/-- The chunks of a file that are not deleted. -/
def list (m : Metadata) (id : Nat) : List Chunk := (m.recorded id).filter fun c => !c.deleted

/-- Marks a file as deleted. Its chunks stay as they are. -/
def delete (m : Metadata) (id : Nat) : Except MetadataFault Unit × Metadata :=
  match m.file? id with
  | none => (.error (.unknownFile id), m)
  | some _ =>
    let mark := fun (n, file) => if n = id then (n, { file with deleted := true }) else (n, file)
    (.ok (), { m with files := m.files.map mark })

end Metadata

/-! ### Stores that may fail -/

/-- A store of records, which works on a world of type `μ`. -/
structure MetadataStore (μ : Type) where
  create : LogicalFile → μ → Except Cause Nat × μ
  createChunks : Nat → List Chunk → μ → Except Cause Unit × μ
  file? : Nat → μ → Except Cause (Option LogicalFile)
  list : Nat → μ → Except Cause (List Chunk)

/-- The store in memory. -/
def MetadataStore.inMemory : MetadataStore Metadata where
  create := fun file m =>
    let (id, m) := m.create file
    (.ok id, m)
  createChunks := fun id chunks m =>
    let (result, m) := m.createChunks id chunks
    (result.mapError .metadata, m)
  file? := fun id m => .ok (m.file? id)
  list := fun id m => .ok (m.list id)

end ChunkedStorage
