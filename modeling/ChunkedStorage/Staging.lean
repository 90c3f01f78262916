import ChunkedStorage.Body
import ChunkedStorage.Failure
import ChunkedStorage.Sha256

/-!
# Staging

Chunks are cut from a file by offset, so an incoming stream is first copied to a file of its own, and hashed on the
way. The copy is removed when it is no longer needed, and at once if the stream fails or has another length than
declared.
-/

namespace ChunkedStorage

/-! ### Streams -/

/-- Bytes that arrive in pieces, and the fault they end with, if any. An empty piece is the end. -/
structure InputStream where
  pieces : List Bytes
  fault? : Option IoFault

namespace InputStream

/-- Cuts bytes into parts of at most `size`. -/
def cutFor : (fuel : Nat) → (size : Nat) → Bytes → List Bytes
  | 0, _, _ => []
  | fuel + 1, size, bytes => if bytes = [] then [] else bytes.take size :: cutFor fuel size (bytes.drop size)

def cut (size : Nat) (bytes : Bytes) : List Bytes := cutFor bytes.length (max size 1) bytes

/-- What reads into a buffer give one by one. -/
def reads (s : InputStream) (buffer : Nat) : List Bytes := (s.pieces.takeWhile (· ≠ [])).flatMap (cut buffer)

/-- The fault that the reads end with: none if an empty piece comes before it. -/
def outcome (s : InputStream) : Option IoFault := if [] ∈ s.pieces then none else s.fault?

/-- A stream of known bytes that gives at most `feed` of them at a time; it ends at once if `feed` is zero. -/
def ofBytes (feed : Nat) (bytes : Bytes) (fault? : Option IoFault) : InputStream :=
  ⟨if feed = 0 then [] else cut feed bytes, fault?⟩

end InputStream

/-! ### Sources of uploads -/

/-- The content of an upload, in a file that can be read from any offset. -/
structure StagedSource where
  path : String
  length : Nat
  /-- The SHA-256 of the content, known for copies. -/
  checksum? : Option String
  /-- The file to remove when the source is no longer needed. -/
  copy? : Option Path

namespace StagedSource

/-- How the names of copies start. -/
def copyStart : String := "chunkvault-stage-"

/-- Writes the parts to the end of a file, and hashes them one by one. -/
def copyParts (d : Disk) (number : Nat) (parts : List Bytes) : Disk × Sha256.Hasher :=
  (d.append number parts.flatten, parts.foldl Sha256.Hasher.update Sha256.Hasher.empty)

/-- Copies a stream to a new file in a directory. The stream has to be exactly `declared` bytes long. -/
def stage (d : Disk) (stream : InputStream) (declared : Nat) (directory : String) (buffer : Nat) :
    Except Failure StagedSource × Disk :=
  match d.makeDirectories directory with
  | (.error fault, d) => (.error (.staging fault), d)
  | (.ok (), d) =>
    match d.createTemporary directory copyStart with
    | .error fault => (.error (.staging fault), d)
    | .ok (copy, number, d) =>
      let (d, hasher) := copyParts d number (stream.reads buffer)
      let length := (d.content number).length
      match stream.outcome with
      | some fault => (.error (.staging fault), d.unlink copy)
      | none =>
        if length ≠ declared then (.error (.sizeMismatch declared length), d.unlink copy)
        else
          let path := Disk.join directory (copy.getLastD "")
          (.ok ⟨path, length, some hasher.finish, some copy⟩, d)

/-- A file in place. It is neither copied nor removed. -/
def ofPath (d : Disk) (path : String) : Except Failure StagedSource :=
  match d.openEntry path with
  | .error fault => .error (.staging fault)
  | .ok entry => .ok ⟨path, d.sizeOf entry, none, none⟩

/-- The bytes of a span of the source. -/
def window (source : StagedSource) (d : Disk) (s : Span) : Except Failure FileWindow :=
  (FileWindow.ofFile d source.path s).mapError .staging

/-- Removes the copy, if the source is one. -/
def discard (source : StagedSource) (d : Disk) : Disk :=
  match source.copy? with
  | some copy => d.unlink copy
  | none => d

end StagedSource

end ChunkedStorage
