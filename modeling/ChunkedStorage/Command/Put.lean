import ChunkedStorage.Command
import ChunkedStorage.Command.Session
import ChunkedStorage.Manifest

/-!
# Storing a file

The file is uploaded to a directory of objects. The manifest is written when everything else is done.
-/

namespace ChunkedStorage

/-- The last name of a written path, if it is that of an entry. -/
def fileName? (path : String) : Option String :=
  match ((path.splitOn "/").filter fun name => name ≠ "" ∧ name ≠ ".").getLast? with
  | some ".." | none => none
  | some name => some name

namespace PutCommand

/-- The name that the file is stored under. -/
def name (p : PutCommand) : String := p.name?.getD ((fileName? p.file).getD "file")

/-- Stores the chunks and records them. -/
def upload (p : PutCommand) (config : Config) (s : Session) : Except Failure UploadedFile × Session :=
  match StagedSource.ofPath s.disk p.file with
  | .error failure => (.error failure, s)
  | .ok source =>
    let (result, disk, s) := (Session.target ⟨p.store⟩).uploadStaged config.chunking p.name source s.disk s
    (result, { s with disk })

/-- The line that tells what was stored. -/
def doneLine (p : PutCommand) (m : Manifest) : String :=
  s!"stored {p.name}: {m.file.totalSize} bytes in {m.chunks.length} object(s), manifest {p.manifest}\n"

def run (p : PutCommand) (config : Config) (s : Session) : Except CommandFailure Unit × Session :=
  match p.upload config s with
  | (.error failure, s) => (.error (.failed failure), s)
  | (.ok uploaded, s) =>
    let m : Manifest := ⟨uploaded.file, uploaded.chunks⟩
    match s.disk.writeFile p.manifest (Text.encode m.render) with
    | .error fault => (.error (.writing p.manifest fault), s)
    | .ok disk => (.ok (), { s with disk }.print (p.doneLine m))

end PutCommand

end ChunkedStorage
