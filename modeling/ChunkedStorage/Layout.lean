import ChunkedStorage.Chunk
import ChunkedStorage.Failure

/-!
# Layouts

How a file is cut into chunks of one size, of which only the last may be shorter. The bounds of chunk `i` follow from
`i`, the file size and the chunk size alone.
-/

namespace ChunkedStorage

/-- The usual chunk size, a safety margin below the 5 GiB that backends take as one object. -/
def defaultMaxChunkSize : Nat := 4831838208

/-- Inputs of this size or larger are usually chunked. -/
def defaultChunkThreshold : Nat := 5 * 1024 * 1024 * 1024

/-- Whether an input of `size` bytes has to be split. -/
def requiresChunking (size threshold : Nat) : Bool := threshold ≤ size

/-- Where one planned chunk lies. -/
structure ChunkBounds where
  index : Nat
  start : Nat
  stop : Nat
deriving DecidableEq

namespace ChunkBounds

def length (b : ChunkBounds) : Nat := b.stop - b.start

def isEmpty (b : ChunkBounds) : Bool := b.start == b.stop

def span (b : ChunkBounds) : Span := ⟨b.start, b.stop⟩

end ChunkBounds

structure Layout where
  totalSize : Nat
  maxChunkSize : Nat
  maxChunkSize_pos : 0 < maxChunkSize

namespace Layout

def create (totalSize maxChunkSize : Nat) : Except Failure Layout :=
  if h : 0 < maxChunkSize then .ok ⟨totalSize, maxChunkSize, h⟩
  else .error (.configuration .zeroLayoutChunkSize)

/-- The number of chunks: the size of the file divided by the chunk size, rounded up. -/
def count (l : Layout) : Nat := (l.totalSize + l.maxChunkSize - 1) / l.maxChunkSize

def boundsAt (l : Layout) (index : Nat) : ChunkBounds :=
  let start := index * l.maxChunkSize
  { index, start, stop := min (saturatingAdd start l.maxChunkSize) l.totalSize }

/-- The bounds from chunk `index` on, at most `limit` of them. -/
def boundsFrom (l : Layout) (index limit : Nat) : List ChunkBounds :=
  (List.range' index (min limit (l.count - index))).map l.boundsAt

/-- The bounds of all chunks. A file without bytes has none. -/
def bounds (l : Layout) : List ChunkBounds := (List.range l.count).map l.boundsAt

theorem length_bounds (l : Layout) : l.bounds.length = l.count := by simp [bounds]

end Layout

/-- The bounds of the chunks of a file of `totalSize` bytes. -/
def plan (totalSize maxChunkSize : Nat) : Except Failure (List ChunkBounds) :=
  (Layout.create totalSize maxChunkSize).map Layout.bounds

end ChunkedStorage
