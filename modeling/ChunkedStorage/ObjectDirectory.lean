import ChunkedStorage.Chunk
import ChunkedStorage.Location
import ChunkedStorage.Progress
import ChunkedStorage.Staging

/-!
# Object directories

A store that keeps each object in a file of one directory, named by the SHA-256 of its bytes. The name is also the
reference and the checksum of the object, so equal objects are stored once.
-/

namespace ChunkedStorage

/-- One object to store. -/
structure ChunkUpload where
  index : Nat
  name : String
  /-- How many bytes the body is announced to deliver. -/
  length : Nat
  body : Body
  progress : ChunkProgress

structure ObjectDirectory where
  root : String

namespace ObjectDirectory

/-- The largest piece that is copied at a time. -/
def copySize : Nat := 512 * 1024

/-- How the names of unfinished objects start. -/
def incomingStart : String := ".incoming-"

def objectPath (o : ObjectDirectory) (ref : String) : String := Disk.join o.root ref

/-- One report for each piece, of all bytes up to its end. -/
def reports (upload : ChunkUpload) : (written : Nat) → List Bytes → List ProgressReport
  | _, [] => []
  | written, piece :: rest =>
    ⟨upload.progress, written + piece.length, max upload.length 1⟩ :: reports upload (written + piece.length) rest

/-- Gives a finished file its name, unless an object of that name exists already. -/
def keep (o : ObjectDirectory) (d : Disk) (incoming : Path) (ref : String) : Except ObjectFault StoredObject × Disk :=
  let target := o.objectPath ref
  if (d.exists? target).toOption = some true then (.ok ⟨ref, ref⟩, d.unlink incoming)
  else
    match d.move incoming target with
    | .ok d => (.ok ⟨ref, ref⟩, d)
    | .error fault => (.error (.write o.root fault), d.unlink incoming)

/-- Stores an object, with the reports made on the way. A failed upload leaves no file behind. -/
def store (o : ObjectDirectory) (d : Disk) (grant : Nat) (upload : ChunkUpload) :
    Except ObjectFault StoredObject × List ProgressReport × Disk :=
  match d.makeDirectories o.root with
  | (.error fault, d) => (.error (.write o.root fault), [], d)
  | (.ok (), d) =>
    match d.createTemporary o.root incomingStart with
    | .error fault => (.error (.write o.root fault), [], d)
    | .ok (incoming, number, d) =>
      let (pieces, last, _) := upload.body.drain d grant copySize
      let (d, hasher) := StagedSource.copyParts d number pieces
      let made := reports upload 0 pieces
      let written := (d.content number).length
      match last with
      | .error fault => (.error (.readBody upload.index fault), made, d.unlink incoming)
      | .ok _ =>
        if written ≠ upload.length then
          (.error (.shortBody upload.index upload.length written), made, d.unlink incoming)
        else
          let (stored, d) := o.keep d incoming hasher.finish
          (stored, made, d)

/-- The location of an object, if the directory holds it. -/
def resolve (o : ObjectDirectory) (d : Disk) (ref : String) : Except IoFault (Option AccessLocation) :=
  match d.exists? (o.objectPath ref) with
  | .error fault => .error fault
  | .ok true => .ok (some (.ofFile (o.objectPath ref)))
  | .ok false => .ok none

/-- Opens a span of the file that a location names. -/
def openBody (d : Disk) (location : AccessLocation) (s : Span) : Except TransferFault Body :=
  match FileWindow.ofFile d location.path s with
  | .ok w => .ok (.window w)
  | .error fault => .error (.io fault)

end ObjectDirectory

end ChunkedStorage
