import ChunkedStorage.Fault
import ChunkedStorage.Span
import ChunkedStorage.Text.Utf8

/-!
# Entries of disks

The part of a file system that uploads and commands work on. A directory entry refers to a file by its number; the
content stays when the entry is removed, so that whoever holds the file open can go on reading it.
-/

namespace ChunkedStorage

/-- The names that lead from the root to an entry. -/
abbrev Path := List String

inductive Entry where
  | directory
  | file (number : Nat)
deriving DecidableEq

structure Disk where
  entries : List (Path × Entry)
  contents : List Bytes
  /-- The last position that the file system seeks to. -/
  seekLimit : Nat
deriving DecidableEq

namespace Disk

/-- The last position that ext4 seeks to, with blocks of 4096 bytes. -/
def ext4SeekLimit : Nat := 17592186040320

def empty : Disk := ⟨[], [], ext4SeekLimit⟩

/-- The entry of a path; the root is always a directory. -/
def entry? (d : Disk) (p : Path) : Option Entry := if p = [] then some .directory else d.entries.lookup p

def content (d : Disk) (number : Nat) : Bytes := d.contents.getD number []

/-- The last position that a file can be read from: positions are signed words, and the file system has a limit. -/
def lastPosition (d : Disk) : Nat := min (signedLimit - 1) d.seekLimit

theorem le_lastPosition_iff {d : Disk} {position : Nat} :
    position ≤ d.lastPosition ↔ position < signedLimit ∧ position ≤ d.seekLimit := by
  have hpositive : 0 < signedLimit := by decide
  rw [lastPosition, Nat.le_min, Nat.le_sub_one_iff_lt hpositive]

theorem lastPosition_congr {d d' : Disk} (h : d'.seekLimit = d.seekLimit) : d'.lastPosition = d.lastPosition := by
  rw [lastPosition, h, lastPosition]

theorem lastPosition_lt_signedLimit (d : Disk) : d.lastPosition < signedLimit :=
  (le_lastPosition_iff.1 (Nat.le_refl d.lastPosition)).1

/-! ### Contents -/

/-- The bytes of an open file in the span, as far as the file reaches; a directory has no bytes to read. -/
def readAt (d : Disk) (entry : Entry) (s : Span) : Except IoFault Bytes :=
  match entry with
  | .directory => .error (.os IoFault.isDirectoryCode)
  | .file number => .ok (s.cut (d.content number))

/-- How many bytes of a file the system usually hands over at once. -/
def readLimit : Nat := 2 * 1024 * 1024

/-- The size that a directory reports. -/
def directorySize : Nat := 4096

def sizeOf (d : Disk) : Entry → Nat
  | .directory => directorySize
  | .file number => (d.content number).length

def setContent (d : Disk) (number : Nat) (bytes : Bytes) : Disk := { d with contents := d.contents.set number bytes }

def append (d : Disk) (number : Nat) (bytes : Bytes) : Disk := d.setContent number (d.content number ++ bytes)

/-! ### Changes -/

/-- Adds an empty file under a free path, and gives its number. -/
def addFile (d : Disk) (p : Path) : Nat × Disk :=
  (d.contents.length,
    { d with entries := (p, .file d.contents.length) :: d.entries, contents := d.contents ++ [[]] })

/-- Adds a directory under a free path. -/
def addDirectory (d : Disk) (p : Path) : Disk := { d with entries := (p, .directory) :: d.entries }

/-- Removes the entry of a path; the content stays. -/
def unlink (d : Disk) (p : Path) : Disk := { d with entries := d.entries.filter fun e => e.1 ≠ p }

/-! ### Listings -/

/-- The order of paths, name by name. -/
def pathLe : Path → Path → Bool
  | [], _ => true
  | _ :: _, [] => false
  | a :: as, b :: bs => if a = b then pathLe as bs else a < b

/-- The files below a directory, with their paths from there and their sizes. -/
def filesBelow (d : Disk) (directory : Path) : List (Path × Nat) :=
  let found := d.entries.filterMap fun (p, entry) =>
    match entry with
    | .directory => none
    | .file number =>
      if directory.isPrefixOf p then some (p.drop directory.length, (d.content number).length) else none
  found.mergeSort fun a b => pathLe a.1 b.1

end Disk

end ChunkedStorage
