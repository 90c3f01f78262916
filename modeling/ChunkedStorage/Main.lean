import ChunkedStorage.Program

/-!
# The command line

What the arguments name is read from the disk, the program runs on it, and what it changed is written back. There is no
client for HTTP here, so every request comes back as a network failure.
-/

namespace ChunkedStorage.Main

/-- Whether a written path leads to a directory. -/
def isDirectory (path : String) : IO Bool := do
  match ← (IO.FS.realPath (path ++ "/.")).toBaseIO with
  | .ok _ => return true
  | .error _ => return false

/-- Reads a file, or notes that there is a directory. -/
def withFile (d : Disk) (path : String) : IO Disk := do
  let directory := Disk.parentText path
  let d ← if directory ≠ "" && (← isDirectory directory) then pure (d.makeDirectories directory).2 else pure d
  if ← isDirectory path then return (d.makeDirectories path).2
  match ← (IO.FS.readBinFile path).toBaseIO with
  | .ok bytes => return (d.writeFile path bytes.data.toList).toOption.getD d
  | .error _ => return d

/-- The references of the objects that a command reads. -/
def references (g : GetCommand) (d : Disk) : List String :=
  match g.readManifest d with
  | .ok m => m.chunks.map (·.remoteRef)
  | .error _ => []

/-- What a command may read. -/
def load (i : Invocation) : IO Disk := do
  let d ← i.config?.elim (pure Disk.empty) (withFile Disk.empty)
  match i.command with
  | .plan _ => return d
  | .put p => [p.file, p.manifest, p.store].foldlM withFile d
  | .get g =>
    let d ← (g.output?.toList ++ [g.manifest]).foldlM withFile d
    match g.source with
    | .template _ => return d
    | .directory path => (path :: (references g d).map (Disk.join path)).foldlM withFile d

/-- Writes a file that was not there before or has other content now. -/
def saveFile (old new : Disk) (path : String) : IO Unit :=
  match new.contentAt path with
  | .ok bytes => do
    if (old.contentAt path).toOption ≠ some bytes then IO.FS.writeBinFile path bytes.toByteArray
  | .error _ => return ()

def save (i : Invocation) (old new : Disk) : IO Unit := do
  match i.command with
  | .plan _ => return ()
  | .put p =>
    if let .ok directory := new.openDirectory p.store then
      IO.FS.createDirAll p.store
      for (path, _) in new.filesBelow directory do
        saveFile old new (Disk.join p.store ("/".intercalate path))
    saveFile old new p.manifest
  | .get g => g.output?.elim (pure ()) (saveFile old new)

def unreachable : Network := fun _ _ => .error "no network"

def run (words : List String) : IO Nat := do
  let invocation? := (Invocation.parse words).toOption
  let old ← invocation?.elim (pure Disk.empty) load
  let level? ← IO.getEnv "RUST_LOG"
  let tempDir := (← IO.getEnv "TMPDIR").getD "/tmp"
  let (ending, s) := Program.run words tempDir level? unreachable { disk := old }
  invocation?.elim (pure ()) fun i => save i old s.disk
  (← IO.getStdout).write s.output.toByteArray
  ending.errorLine?.elim (pure ()) fun line => IO.eprintln line
  return ending.exitCode

end ChunkedStorage.Main

def main (words : List String) : IO UInt32 := do return (← ChunkedStorage.Main.run words).toUInt32
