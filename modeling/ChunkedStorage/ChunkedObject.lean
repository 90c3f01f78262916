import ChunkedStorage.Listing
import ChunkedStorage.Metadata
import ChunkedStorage.Reader

/-!
# Chunked objects

The handle for reading one stored file. It holds the listing of the chunks as it was when the handle was made, and is
made only from a listing that is the layout of the file.
-/

namespace ChunkedStorage

structure ChunkedObject where
  totalSize : Nat
  chunks : List Chunk
  verify_chunks : Listing.verify chunks totalSize = .ok ()

namespace ChunkedObject

/-- A handle for a listing; fails on an empty or inconsistent one. -/
def create (totalSize : Nat) (chunks : List Chunk) : Except Failure ChunkedObject :=
  match h : Listing.verify chunks totalSize with
  | .error failure => .error failure
  | .ok () => .ok ⟨totalSize, chunks, h⟩

/-- The names of the metadata operations of a read. -/
def fileOperation : String := "get_logical_file"

def listOperation : String := "list_chunks"

/-- A handle for a recorded file that is not deleted. -/
def ofMetadata {μ : Type} (store : MetadataStore μ) (id : Nat) (world : μ) : Except Failure ChunkedObject :=
  match store.file? id world with
  | .error cause => .error (.metadata fileOperation cause)
  | .ok none => .error (.fileNotFound id)
  | .ok (some file) =>
    if file.deleted then .error (.fileNotFound id)
    else
      match store.list id world with
      | .error cause => .error (.metadata listOperation cause)
      | .ok chunks => create file.totalSize chunks

/-- A reader of a range. Its bounds are checked here; an empty range gives an exhausted reader. -/
def rangeRead {σ β : Type} (o : ChunkedObject) (b : Backend σ β) (request : RangeRequest) (world : σ) :
    Except Failure (Reader β) :=
  if b.isClosed world then .error .closed
  else
    match request.resolve o.totalSize with
    | .error failure => .error failure
    | .ok wanted =>
      if wanted.isEmpty then .ok (.ofSlices o.chunks [] wanted)
      else
        match mapRange o.chunks o.totalSize request with
        | .error failure => .error failure
        | .ok slices => .ok (.ofSlices o.chunks slices wanted)

end ChunkedObject

end ChunkedStorage
