import ChunkedStorage.Decimal.Nearest
import ChunkedStorage.Text.Blank
import ChunkedStorage.Text.Decimal
import ChunkedStorage.Text.Quoted

/-!
# Readable sizes

Byte counts written with binary units: `KB` and `KiB` both mean 1024 bytes. A fraction is rounded down to whole bytes.
-/

namespace ChunkedStorage

inductive SizeUnit where
  | byte
  | kibi
  | mebi
  | gibi
  | tebi
deriving DecidableEq

namespace SizeUnit

/-- The power of two that the unit stands for. -/
def power : SizeUnit → Nat
  | byte => 0
  | kibi => 10
  | mebi => 20
  | gibi => 30
  | tebi => 40

def bytes (u : SizeUnit) : Nat := Nat.pow 2 u.power

def name : SizeUnit → String
  | byte => "B"
  | kibi => "KiB"
  | mebi => "MiB"
  | gibi => "GiB"
  | tebi => "TiB"

/-- The unit of a name in uppercase letters. -/
def ofName? : String → Option SizeUnit
  | "" | "B" => some byte
  | "K" | "KB" | "KIB" => some kibi
  | "M" | "MB" | "MIB" => some mebi
  | "G" | "GB" | "GIB" => some gibi
  | "T" | "TB" | "TIB" => some tebi
  | _ => none

end SizeUnit

/-- Why a text is no size. -/
inductive SizeFault where
  | empty
  | invalidNumber (input : String)
  | unknownUnit (unit : String)
  | overflow (input : String)
deriving DecidableEq

def SizeFault.message : SizeFault → String
  | empty => "empty size string"
  | invalidNumber input => s!"invalid size number in {Text.quoted input}"
  | unknownUnit unit => s!"unknown size unit {Text.quoted unit}"
  | overflow input => s!"size {Text.quoted input} overflows u64"

namespace Size

/-- The largest unit that divides a size; bytes for zero. -/
def unitOf (bytes : Nat) : SizeUnit :=
  if bytes = 0 then .byte
  else if bytes % SizeUnit.tebi.bytes = 0 then .tebi
  else if bytes % SizeUnit.gibi.bytes = 0 then .gibi
  else if bytes % SizeUnit.mebi.bytes = 0 then .mebi
  else if bytes % SizeUnit.kibi.bytes = 0 then .kibi
  else .byte

/-- A size as a whole number of the largest unit that divides it. -/
def render (bytes : Nat) : String :=
  let unit := unitOf bytes
  toString (bytes / unit.bytes) ++ unit.name

/-- The ASCII letters in uppercase. -/
def upper (s : List Char) : List Char := s.map Char.toUpper

def isNumberChar (c : Char) : Bool := Text.isDigit c || c == '.'

/-- A number with a point, as its digits without the point and the count of those behind it. -/
def fraction? (number : List Char) : Option (Nat × Nat) :=
  let whole := number.takeWhile (· ≠ '.')
  let places := (number.dropWhile (· ≠ '.')).drop 1
  (Text.digits? (whole ++ places)).map fun n => (n, places.length)

/-- The whole bytes of a fraction of a unit. -/
def fractionBytes (digits places : Nat) (unit : SizeUnit) : Nat :=
  ((Decimal.nearest digits (Nat.pow 10 places)).shift unit.power).floor

/-- The bytes of a number of units, if it is a number. -/
def bytesOf? (number : List Char) (unit : SizeUnit) : Option Nat :=
  match Text.natural? number with
  | some whole => some (whole * unit.bytes)
  | none => (fraction? number).map fun (digits, places) => fractionBytes digits places unit

/-- Reads a size: a number of digits and points, then a unit in any case; blanks may surround both. -/
def parse (text : String) : Except SizeFault Nat :=
  let trimmed := Text.trim text.toList
  if trimmed = [] then
    .error .empty
  else
    let unitText := String.ofList (upper (Text.trim (trimmed.dropWhile isNumberChar)))
    match SizeUnit.ofName? unitText with
    | none => .error (.unknownUnit unitText)
    | some unit =>
      match bytesOf? (trimmed.takeWhile isNumberChar) unit with
      | none => .error (.invalidNumber (String.ofList trimmed))
      | some bytes => if bytes < wordLimit then .ok bytes else .error (.overflow (String.ofList trimmed))

end Size

end ChunkedStorage
