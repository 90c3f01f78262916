import ChunkedStorage.Disk.Place

/-!
# Disks

Files and directories are opened, made, moved and removed by their written paths.
-/

namespace ChunkedStorage.Disk

/-! ### Files -/

/-- The content of the file that a written path leads to. -/
def contentAt (d : Disk) (text : String) : Except IoFault Bytes :=
  match d.openEntry text with
  | .error fault => .error fault
  | .ok .directory => .error (.os IoFault.isDirectoryCode)
  | .ok (.file number) => .ok (d.content number)

/-- Opens a file for writing, and makes it if it does not exist. A path with slashes at its end names no file. -/
def openForWriting (d : Disk) (text : String) : Except IoFault (Nat × Disk) :=
  match d.locate text with
  | .error fault => .error fault
  | .ok (.directory _) | .ok (.name _ _ true) => .error (.os IoFault.isDirectoryCode)
  | .ok (.name parent name false) =>
    match d.entryAt (.name parent name false) with
    | .error fault => .error fault
    | .ok (some .directory) => .error (.os IoFault.isDirectoryCode)
    | .ok (some (.file number)) => .ok (number, d)
    | .ok none => .ok (d.addFile (parent ++ [name]))

/-- Opens a file for writing from its start on, and makes it if it does not exist. -/
def create (d : Disk) (text : String) : Except IoFault (Nat × Disk) :=
  (d.openForWriting text).map fun (number, d) => (number, d.setContent number [])

def writeFile (d : Disk) (text : String) (bytes : Bytes) : Except IoFault Disk :=
  (d.create text).map fun (number, d) => d.setContent number bytes

def removeFile (d : Disk) (text : String) : Except IoFault Disk :=
  match d.locate text with
  | .error fault => .error fault
  | .ok (.directory _) => .error (.os IoFault.isDirectoryCode)
  | .ok (.name parent name slashed) =>
    match d.entryAt (.name parent name slashed) with
    | .error fault => .error fault
    | .ok (some .directory) => .error (.os IoFault.isDirectoryCode)
    | .ok (some (.file _)) => .ok (d.unlink (parent ++ [name]))
    | .ok none => .error (.os IoFault.notFoundCode)

/-- Moves a file to a name that no directory has. -/
def move (d : Disk) (source : Path) (text : String) : Except IoFault Disk :=
  match d.locate text, d.entry? source with
  | .error fault, _ => .error fault
  | .ok (.directory _), _ => .error (.os IoFault.isDirectoryCode)
  | .ok _, none => .error (.os IoFault.notFoundCode)
  | .ok (.name parent name slashed), some entry =>
    match d.entryAt (.name parent name slashed) with
    | .error fault => .error fault
    | .ok (some .directory) => .error (.os IoFault.isDirectoryCode)
    | .ok _ =>
      let cleared := (d.unlink (parent ++ [name])).unlink source
      .ok { cleared with entries := (parent ++ [name], entry) :: cleared.entries }

/-- A name in the directory `here` that starts as given and is free. -/
def freeName (d : Disk) (here : Path) (start : String) : String :=
  let names := (List.range (d.entries.length + 1)).map fun n => start ++ toString n
  (names.find? fun name => (d.entry? (here ++ [name])).isNone).getD start

/-- Makes an empty file with a name of its own in a directory. -/
def createTemporary (d : Disk) (directory start : String) : Except IoFault (Path × Nat × Disk) :=
  (d.openDirectory (if directory = "" then "." else directory)).map fun here =>
    let p := here ++ [d.freeName here start]
    (p, d.addFile p)

/-! ### Directories -/

/-- Makes a directory at a free place. -/
def makeDirectoryAt (d : Disk) (p : Place) : Except IoFault Disk :=
  match p with
  | .directory _ => .error (.os IoFault.existsCode)
  | .name parent name _ =>
    match d.entryAt (.name parent name false) with
    | .error fault => .error fault
    | .ok (some _) => .error (.os IoFault.existsCode)
    | .ok none => .ok (d.addDirectory (parent ++ [name]))

/-- Makes the directory that reversed names lead to, unless it exists. -/
def makeDirectory (d : Disk) (reversed : List String) : Except IoFault Unit × Disk :=
  match (d.placeOf reversed).bind d.makeDirectoryAt with
  | .ok d => (.ok (), d)
  | .error fault =>
    match (d.placeOf reversed).bind d.directoryAt with
    | .ok _ => (.ok (), d)
    | .error _ => (.error fault, d)

/-- Makes the first directory; where something above it is missing, the others are made before. -/
def makeFirst (d : Disk) : (paths : List (List String)) → Except IoFault Unit × Disk
  | [] => (.ok (), d)
  | reversed :: above =>
    match d.makeDirectory reversed with
    | (.ok (), d) => (.ok (), d)
    | (.error fault, d) =>
      if fault.isNotFound then
        match makeFirst d above with
        | (.ok (), d) => d.makeDirectory reversed
        | (.error fault, d) => (.error fault, d)
      else (.error fault, d)

/-- Makes a directory, and the directories above it, unless it exists. -/
def makeDirectories (d : Disk) (text : String) : Except IoFault Unit × Disk :=
  if text = "" then (.ok (), d)
  else
    match namesOf text with
    | .error fault => (.error fault, d)
    | .ok names => d.makeFirst (names.reverse :: ancestors names.reverse)

end ChunkedStorage.Disk
