import ChunkedStorage.Span

/-!
# Decimal numbers

Reading of whole numbers that fit a word, and writing with a number of digits.
-/

namespace ChunkedStorage.Text

def isDigit (c : Char) : Bool := '0' ≤ c && c ≤ '9'

def digitValue (c : Char) : Nat := c.toNat - 48

/-- The value of a row of digits. -/
def digitsValue (ds : List Char) : Nat := ds.foldl (fun n d => 10 * n + digitValue d) 0

/-- The value of a text of one or more digits and nothing else. -/
def digits? (s : List Char) : Option Nat :=
  if s ≠ [] ∧ s.all isDigit then some (digitsValue s) else none

/-- The digits of `n` with zeros in front up to `width` digits. -/
def paddedDigits (width n : Nat) : List Char :=
  let digits := Nat.toDigits 10 n
  List.replicate (width - digits.length) '0' ++ digits

/-- Reads a word: digits, with an optional plus sign. -/
def natural? (s : List Char) : Option Nat := do
  let n ← match s with
    | '+' :: rest => digits? rest
    | _ => digits? s
  if n < wordLimit then some n else none

/-- Reads a signed word: digits, with an optional sign. -/
def integer? (s : List Char) : Option Int := do
  let i : Int ← match s with
    | '+' :: rest => (digits? rest).map Int.ofNat
    | '-' :: rest => (digits? rest).map fun n => -Int.ofNat n
    | _ => (digits? s).map Int.ofNat
  if -(signedLimit : Int) ≤ i ∧ i < signedLimit then some i else none

end ChunkedStorage.Text
