import ChunkedStorage.Chunk
import ChunkedStorage.Range

/-!
# Slices

The parts of the chunks that together hold a requested range, in the order of the chunks.
-/

namespace ChunkedStorage

/-- The part of one chunk that a range needs. -/
structure ChunkSlice where
  /-- Position among the slices of the range. -/
  position : Nat
  /-- Index of the chunk within the file. -/
  index : Nat
  /-- Offset within the file of the first byte of the chunk. -/
  logicalStart : Nat
  /-- What to fetch, relative to the first byte of the chunk. -/
  range : Span
deriving DecidableEq

namespace ChunkSlice

def length (s : ChunkSlice) : Nat := s.range.length

def isEmpty (s : ChunkSlice) : Bool := s.range.start == s.range.stop

/-- The span of the file that the slice covers. -/
def logicalRange (s : ChunkSlice) : Span := ⟨s.logicalStart + s.range.start, s.logicalStart + s.range.stop⟩

/-- The part of a chunk that lies inside `wanted`. -/
def ofChunk (wanted : Span) (position : Nat) (c : Chunk) : ChunkSlice where
  position
  index := c.index
  logicalStart := c.start
  range := ⟨max wanted.start c.start - c.start, min wanted.stop c.stop - c.start⟩

end ChunkSlice

/-- Whether the chunk holds a byte of `wanted`, or holds the place of an empty `wanted` in its inside. -/
def Chunk.overlaps (c : Chunk) (wanted : Span) : Bool := c.start < wanted.stop && wanted.start < c.stop

def slicesFrom (wanted : Span) : (position : Nat) → List Chunk → List ChunkSlice
  | _, [] => []
  | position, c :: rest => .ofChunk wanted position c :: slicesFrom wanted (position + 1) rest

/-- The slices that hold the requested range; fails if no chunk overlaps it. -/
def mapRange (chunks : List Chunk) (totalSize : Nat) (request : RangeRequest) : Except Failure (List ChunkSlice) :=
  match request.resolve totalSize with
  | .error failure => .error failure
  | .ok wanted =>
    match slicesFrom wanted 0 (chunks.filter (·.overlaps wanted)) with
    | [] => .error (.noChunksForRange wanted.start wanted.stop totalSize chunks.length)
    | slices => .ok slices

end ChunkedStorage
