import ChunkedStorage.Disk.Basic

/-!
# Places on disks

Written paths are names with slashes between them. All names but the last lead through directories; the last one names
a place, which may be taken or free. Slashes behind the last name ask for a directory.
-/

namespace ChunkedStorage

/-- Where a written path leads to. -/
inductive Place where
  /-- A directory that the path names by dots, or the root. -/
  | directory (path : Path)
  /-- A name in a directory, perhaps with slashes behind it. -/
  | name (parent : Path) (name : String) (slashed : Bool)
deriving DecidableEq

namespace Disk

/-! ### Written paths -/

/-- The longest name of an entry, in bytes. -/
def nameLimit : Nat := 255

/-- One more than the longest written path, in bytes. -/
def pathLimit : Nat := 4096

/-- The names of a written path: what stands between its slashes. -/
def parts (text : String) : List String := (text.toList.splitOn '/').map String.ofList

/-- Whether a written path starts at the root. -/
def isAbsolute (text : String) : Bool := text.toList.head? == some '/'

/-- The names of a written path, if it can be one. -/
def namesOf (text : String) : Except IoFault (List String) :=
  if '\x00' ∈ text.toList then .error (.stated .invalidInput "file name contained an unexpected NUL byte")
  else if text = "" then .error (.os IoFault.notFoundCode)
  else if pathLimit ≤ text.utf8ByteSize then .error (.os IoFault.nameTooLongCode)
  else .ok (parts text)

/-- Whether a name leads nowhere else. -/
def isIdle (name : String) : Bool := name == "" || name == "."

/-- The short form of a written path, without idle names and slashes at the end. A dot that comes first stays. -/
def tidy (text : String) : String :=
  let names := parts text
  let inner := names.tail.filter (!isIdle ·)
  if isAbsolute text then "/" ++ "/".intercalate inner else "/".intercalate (names.headD "" :: inner)

/-- The paths above the one that reversed names write, the nearest one first. -/
def ancestors (reversed : List String) : List (List String) := (suffixes reversed).tail
where
  /-- What starts with a name that leads somewhere. -/
  suffixes : List String → List (List String)
    | [] => []
    | name :: rest => if isIdle name then suffixes rest else (name :: rest) :: suffixes rest

/-- The written path of the directory that a written path lies in. -/
def parentText (text : String) : String :=
  "/".intercalate ((ancestors (parts text).reverse).headD []).reverse

/-- The written form of a path below a directory: an absolute one replaces the directory. -/
def join (directory text : String) : String :=
  if isAbsolute text then text
  else if directory = "" ∨ directory.toList.getLast? = some '/' then directory ++ text
  else directory ++ "/" ++ text

/-! ### Finding places -/

/-- Follows names from the directory `here` on, all of which have to be directories. -/
def enter (d : Disk) : (here : Path) → (names : List String) → Except IoFault Path
  | here, [] => .ok here
  | here, name :: rest =>
    if isIdle name then d.enter here rest
    else if name = ".." then d.enter here.dropLast rest
    else if nameLimit < name.utf8ByteSize then .error (.os IoFault.nameTooLongCode)
    else
      match d.entry? (here ++ [name]) with
      | some .directory => d.enter (here ++ [name]) rest
      | some (.file _) => .error (.os IoFault.notDirectoryCode)
      | none => .error (.os IoFault.notFoundCode)

/-- The place that reversed names lead to from the root. -/
def placeOf (d : Disk) (reversed : List String) : Except IoFault Place :=
  match reversed.dropWhile (· == "") with
  | [] => .ok (.directory [])
  | last :: above =>
    (d.enter [] above.reverse).map fun here =>
      if last = "." then .directory here
      else if last = ".." then .directory here.dropLast
      else .name here last (reversed.head? == some "")

def locate (d : Disk) (text : String) : Except IoFault Place := (namesOf text).bind fun names => d.placeOf names.reverse

/-! ### What is there -/

/-- The entry at a place, if it is taken. -/
def entryAt (d : Disk) : Place → Except IoFault (Option Entry)
  | .directory _ => .ok (some .directory)
  | .name parent name slashed =>
    if nameLimit < name.utf8ByteSize then .error (.os IoFault.nameTooLongCode)
    else
      match d.entry? (parent ++ [name]), slashed with
      | some (.file _), true => .error (.os IoFault.notDirectoryCode)
      | found, _ => .ok found

/-- Whether a written path leads to an entry; fails if that cannot be told. -/
def exists? (d : Disk) (text : String) : Except IoFault Bool :=
  match (d.locate text).bind d.entryAt with
  | .ok found => .ok found.isSome
  | .error fault => if fault.isNotFound then .ok false else .error fault

/-- The entry that a written path leads to. -/
def openEntry (d : Disk) (text : String) : Except IoFault Entry :=
  match (d.locate text).bind d.entryAt with
  | .ok (some entry) => .ok entry
  | .ok none => .error (.os IoFault.notFoundCode)
  | .error fault => .error fault

/-- The directory at a place. -/
def directoryAt (d : Disk) (p : Place) : Except IoFault Path :=
  match p, d.entryAt p with
  | .directory path, _ => .ok path
  | .name parent name _, .ok (some .directory) => .ok (parent ++ [name])
  | _, .ok (some (.file _)) => .error (.os IoFault.notDirectoryCode)
  | _, .ok none => .error (.os IoFault.notFoundCode)
  | _, .error fault => .error fault

/-- The directory that a written path leads to. -/
def openDirectory (d : Disk) (text : String) : Except IoFault Path := (d.locate text).bind d.directoryAt

end Disk

end ChunkedStorage
