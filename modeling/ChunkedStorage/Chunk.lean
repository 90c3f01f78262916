import ChunkedStorage.Span

/-!
# Chunks and logical files

A logical file may be larger than what the backend takes as one object; it is kept as a list of chunks, each stored as
one object.
-/

namespace ChunkedStorage

/-- One stored object, holding the bytes `[start, stop)` of a logical file. -/
structure Chunk where
  /-- Position within the file, counted from zero without gaps. -/
  index : Nat
  start : Nat
  stop : Nat
  /-- Names the stored object; a resolver turns it into a location. -/
  remoteRef : String
  checksum : String
  deleted : Bool
deriving DecidableEq

namespace Chunk

def length (c : Chunk) : Nat := c.stop - c.start

def isEmpty (c : Chunk) : Bool := c.start == c.stop

def span (c : Chunk) : Span := ⟨c.start, c.stop⟩

end Chunk

/-- The file that users see. -/
structure LogicalFile where
  name : String
  totalSize : Nat
  /-- The length of every chunk but the last; the total size of an unchunked file. -/
  chunkSize : Nat
  chunked : Bool
  /-- The lowercase hexadecimal SHA-256 of the whole content, when known. -/
  checksum : Option String
  deleted : Bool
deriving DecidableEq

/-- A logical file together with its chunks. -/
structure Manifest where
  file : LogicalFile
  chunks : List Chunk
deriving DecidableEq

/-- What a store returns for one stored object. -/
structure StoredObject where
  remoteRef : String
  checksum : String
deriving DecidableEq

end ChunkedStorage
