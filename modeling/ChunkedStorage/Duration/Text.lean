import ChunkedStorage.Duration
import ChunkedStorage.Text.Blank
import ChunkedStorage.Text.Decimal

/-!
# Written durations

Durations as sums of numbers with units, such as `1h 30m`. A month has 30.44 days and a year 365.25. Numbers may have
a fraction of whole nanoseconds, of whole seconds from an hour on; blanks may stand before, inside and behind a number.
-/

namespace ChunkedStorage.Duration

inductive Unit where
  | nanosecond
  | microsecond
  | millisecond
  | second
  | minute
  | hour
  | day
  | week
  | month
  | year
deriving DecidableEq

namespace Unit

def nanos : Unit → Nat
  | nanosecond => 1
  | microsecond => 1000
  | millisecond => 1000000
  | second => 1000000000
  | minute => 60 * 1000000000
  | hour => 3600 * 1000000000
  | day => 86400 * 1000000000
  | week => 604800 * 1000000000
  | month => 2630016 * 1000000000
  | year => 31557600 * 1000000000

def ofName? : String → Option Unit
  | "nanos" | "nsec" | "ns" => some nanosecond
  | "usec" | "us" | "µs" => some microsecond
  | "millis" | "msec" | "ms" => some millisecond
  | "seconds" | "second" | "secs" | "sec" | "s" => some second
  | "minutes" | "minute" | "mins" | "min" | "m" => some minute
  | "hours" | "hour" | "hrs" | "hr" | "h" => some hour
  | "days" | "day" | "d" => some day
  | "weeks" | "week" | "wks" | "wk" | "w" => some week
  | "months" | "month" | "M" => some month
  | "years" | "year" | "yrs" | "yr" | "y" => some year
  | _ => none

end Unit

/-! ### Reading -/

/-- The value, if it is a word. -/
def word? (n : Nat) : Option Nat := if n < wordLimit then some n else none

def isUnitChar (c : Char) : Bool := ('a' ≤ c && c ≤ 'z') || ('A' ≤ c && c ≤ 'Z') || c == 'µ'

def isNumberChar (c : Char) : Bool := Text.isDigit c || Text.isBlank c

/-- The value of the digits among digits and blanks. -/
def digitsOf (s : List Char) : List Char := s.filter Text.isDigit

/-- Adds `n` units. A sum of nanoseconds, and whole seconds, have to be words. -/
def addUnits? (d : Duration) (n : Nat) (u : Unit) : Option Duration :=
  if u.nanos < perSecond then do
    let nanos ← word? (n * u.nanos)
    let nanos ← word? (d.subseconds + nanos)
    let seconds ← word? (d.seconds + nanos / perSecond)
    some (ofParts seconds (nanos % perSecond))
  else do
    let seconds ← word? (n * (u.nanos / perSecond))
    let seconds ← word? (d.seconds + seconds)
    some (ofParts seconds d.subseconds)

/-- What a fraction of a unit is counted in: nanoseconds up to a minute, seconds from an hour on. -/
def Unit.grain (u : Unit) : Unit := if minute.nanos < u.nanos then second else nanosecond

/-- Adds the fraction `digits / 10 ^ places` of a unit, which has to be a whole number of the unit's grains. A number
of nanoseconds has no fraction, not even a zero. -/
def addFraction? (d : Duration) (digits places : Nat) (u : Unit) : Option Duration := do
  let digits ← word? digits
  let den ← word? (Nat.pow 10 places)
  let scaled ← word? (digits * (u.nanos / u.grain.nanos))
  if u = .nanosecond ∨ scaled % den ≠ 0 then none else d.addUnits? (scaled / den) u.grain

/-- Adds the terms of a sum, each a number, perhaps a fraction, and a unit. -/
def addTerms? : (fuel : Nat) → Duration → List Char → Option Duration
  | 0, _, _ => none
  | fuel + 1, d, s =>
    match s.dropWhile Text.isBlank with
    | [] => some d
    | c :: rest =>
      if Text.isDigit c = false then none
      else do
        let s := c :: rest
        let n ← word? (Text.digitsValue (digitsOf (s.takeWhile isNumberChar)))
        let s := s.dropWhile isNumberChar
        match s with
        | '.' :: s =>
          let places := digitsOf (s.takeWhile isNumberChar)
          let s := s.dropWhile isNumberChar
          let u ← Unit.ofName? (String.ofList (s.takeWhile isUnitChar))
          let d ← d.addUnits? n u
          if places = [] then none
          else
            let d ← d.addFraction? (Text.digitsValue places) places.length u
            next? fuel d (s.dropWhile isUnitChar)
        | s =>
          let u ← Unit.ofName? (String.ofList (s.takeWhile isUnitChar))
          let d ← d.addUnits? n u
          next? fuel d (s.dropWhile isUnitChar)
where
  /-- What follows a unit: the end, a blank, or the next number. -/
  next? (fuel : Nat) (d : Duration) (s : List Char) : Option Duration :=
    match s with
    | [] => some d
    | c :: _ => if isNumberChar c then addTerms? fuel d s else none

/-- Reads a duration. A sum has at least one term, but a zero may stand alone. -/
def parse? (text : String) : Option Duration :=
  let s := text.toList
  if s = ['0'] then some ⟨0⟩
  else if s.all Text.isBlank then none
  else addTerms? (s.length + 1) ⟨0⟩ s

/-! ### Writing -/

/-- A number with a unit that is written out and has a plural. -/
def wordItem (n : Nat) (name : String) : Option String :=
  if n = 0 then none else some (if 1 < n then s!"{n}{name}s" else s!"{n}{name}")

def item (n : Nat) (name : String) : Option String := if n = 0 then none else some s!"{n}{name}"

/-- The parts of a duration, those that are zero left out. -/
def parts (d : Duration) : List String :=
  let inYear := d.seconds % 31557600
  let inMonth := inYear % 2630016
  let inDay := inMonth % 86400
  [ wordItem (d.seconds / 31557600) "year", wordItem (inYear / 2630016) "month", wordItem (inMonth / 86400) "day",
    item (inDay / 3600) "h", item (inDay % 3600 / 60) "m", item (inDay % 60) "s",
    item (d.subseconds / 1000000) "ms", item (d.subseconds / 1000 % 1000) "us", item (d.subseconds % 1000) "ns"
  ].filterMap id

def render (d : Duration) : String := if d.nanos = 0 then "0s" else " ".intercalate d.parts

/-- A number with the digits of a fraction, zeros at its end left out. -/
def decimalText (whole : Nat) (fraction : List Char) : String :=
  let kept := (fraction.reverse.dropWhile (· == '0')).reverse
  if kept = [] then toString whole else toString whole ++ "." ++ String.ofList kept

/-- The duration as a decimal number of the largest of seconds, milli-, micro- and nanoseconds that it reaches. -/
def brief (d : Duration) : String :=
  if 0 < d.seconds then decimalText d.seconds (Text.paddedDigits 9 d.subseconds) ++ "s"
  else if 1000000 ≤ d.nanos then decimalText (d.nanos / 1000000) (Text.paddedDigits 6 (d.nanos % 1000000)) ++ "ms"
  else if 1000 ≤ d.nanos then decimalText (d.nanos / 1000) (Text.paddedDigits 3 (d.nanos % 1000)) ++ "µs"
  else toString d.nanos ++ "ns"

end ChunkedStorage.Duration
