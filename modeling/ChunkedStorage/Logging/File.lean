import ChunkedStorage.Calendar
import ChunkedStorage.Disk
import ChunkedStorage.Text.Decimal

/-!
# Log files

A log file is named by a start that is configured, which may lead to another directory, and by the hour it is for.
-/

namespace ChunkedStorage.LogFile

/-- The text of an hour in the names of log files, such as 1970-01-01-00. -/
def hourText (t : Timestamp) : String :=
  let parts := [(4, t.date.year.toNat), (2, t.date.month), (2, t.date.day), (2, t.hourOfDay)]
  "-".intercalate (parts.map fun (width, n) => String.ofList (Text.paddedDigits width n))

/-- The name of the log file for the hour of a point in time. -/
def name (start : String) (t : Timestamp) : String := if start = "" then hourText t else s!"{start}.{hourText t}"

/-- What the name of a log file starts with; without a start, the whole name. -/
def startOf (name : String) : String :=
  match (name.splitOn ".").dropLast with
  | [] => name
  | parts => ".".intercalate parts

/-- Opens a log file for more lines, and gives its number. Directories are made only if that fails at first. -/
def openFor (d : Disk) (directory start : String) (t : Timestamp) : Except IoFault Nat × Disk :=
  let path := Disk.join directory (name start t)
  match d.openForWriting path with
  | .ok (number, d) => (.ok number, d)
  | .error _ =>
    match d.makeDirectories (Disk.parentText path) with
    | (.error fault, d) => (.error fault, d)
    | (.ok (), d) =>
      match d.openForWriting path with
      | .ok (number, d) => (.ok number, d)
      | .error fault => (.error fault, d)

end ChunkedStorage.LogFile
