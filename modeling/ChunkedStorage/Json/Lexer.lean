import ChunkedStorage.Decimal.Shortest
import ChunkedStorage.Json.Fault
import ChunkedStorage.Span
import ChunkedStorage.Text.Decimal

/-!
# The words of JSON texts

Reading of literals, strings and numbers from the front of a text, and passing over values that nobody asks for. Passing
over is more lenient: a number may have any size and an escaped surrogate may stand alone.
-/

namespace ChunkedStorage.Json

/-- The unread part of a text; `none` is a byte that belongs to no character. -/
abbrev Source := List (Option Char)

/-- What a reader gives: a value and the part of the text behind it. -/
abbrev Result (α : Type) := Except Fault (α × Source)

def isBlank (c : Option Char) : Bool := c == some ' ' || c == some '\n' || c == some '\t' || c == some '\r'

def skipBlank (s : Source) : Source := s.dropWhile isBlank

/-- Passes over the given characters. -/
def literal : List Char → Source → Except Fault Source
  | [], s => .ok s
  | _ :: _, [] => .error .ended
  | c :: cs, d :: s => if d = some c then literal cs s else .error .malformed

/-! ### Strings -/

def hexValue? (c : Char) : Option Nat :=
  if '0' ≤ c ∧ c ≤ '9' then some (c.toNat - 48)
  else if 'a' ≤ c ∧ c ≤ 'f' then some (c.toNat - 87)
  else if 'A' ≤ c ∧ c ≤ 'F' then some (c.toNat - 55)
  else none

/-- The number of four hexadecimal digits. -/
def fourDigits? : Source → Option (Nat × Source)
  | some a :: some b :: some c :: some d :: rest => do
    let a ← hexValue? a
    let b ← hexValue? b
    let c ← hexValue? c
    let d ← hexValue? d
    some (((a * 16 + b) * 16 + c) * 16 + d, rest)
  | _ => none

/-- The number of bytes that a part of a text takes. -/
def byteCount (s : Source) : Nat := s.foldl (fun n c => n + (c.map Char.utf8Size).getD 1) 0

/-- Reads four hexadecimal digits; the text ends too early if fewer than four bytes are left. -/
def fourDigits (s : Source) : Result Nat :=
  match fourDigits? s with
  | some result => .ok result
  | none => if byteCount (s.take 4) < 4 then .error .ended else .error .malformed

def isLowSurrogate (n : Nat) : Bool := 0xDC00 ≤ n && n ≤ 0xDFFF

def isHighSurrogate (n : Nat) : Bool := 0xD800 ≤ n && n ≤ 0xDBFF

/-- The character of an escape of two characters. -/
def shortEscape? : Char → Option Char
  | '"' => some '"'
  | '\\' => some '\\'
  | '/' => some '/'
  | 'b' => some '\x08'
  | 'f' => some '\x0c'
  | 'n' => some '\n'
  | 'r' => some '\r'
  | 't' => some '\t'
  | _ => none

/-- The second half of a pair of escaped surrogates. -/
def lowSurrogate (high : Nat) : Source → Result Char
  | [] => .error .ended
  | [some '\\'] => .error .ended
  | some '\\' :: some 'u' :: rest =>
    match fourDigits rest with
    | .error fault => .error fault
    | .ok (low, rest) =>
      if isLowSurrogate low then .ok (Char.ofNat (0x10000 + (high - 0xD800) * 1024 + (low - 0xDC00)), rest)
      else .error .malformed
  | _ => .error .malformed

/-- The character of the escape behind a backslash. -/
def escape : Source → Result Char
  | [] => .error .ended
  | none :: _ => .error .malformed
  | some 'u' :: rest =>
    match fourDigits rest with
    | .error fault => .error fault
    | .ok (n, rest) =>
      if isLowSurrogate n then .error .malformed
      else if isHighSurrogate n then lowSurrogate n rest
      else .ok (Char.ofNat n, rest)
  | some c :: rest =>
    match shortEscape? c with
    | some c => .ok (c, rest)
    | none => .error .malformed

/-- The characters up to the closing quote, or `none` if there are bytes that belong to no character. -/
def stringBody : (fuel : Nat) → Source → Result (Option (List Char))
  | 0, _ => .error .ended
  | _ + 1, [] => .error .ended
  | fuel + 1, none :: rest =>
    match stringBody fuel rest with
    | .error fault => .error fault
    | .ok (_, rest) => .ok (none, rest)
  | fuel + 1, some c :: rest =>
    if c = '"' then
      .ok (some [], rest)
    else if c = '\\' then
      match escape rest with
      | .error fault => .error fault
      | .ok (c, rest) =>
        match stringBody fuel rest with
        | .error fault => .error fault
        | .ok (cs, rest) => .ok (cs.map (c :: ·), rest)
    else if c.toNat < 32 then
      .error .malformed
    else
      match stringBody fuel rest with
      | .error fault => .error fault
      | .ok (cs, rest) => .ok (cs.map (c :: ·), rest)

/-- Reads a string whose opening quote is passed. -/
def string (s : Source) : Result String :=
  match stringBody (s.length + 1) s with
  | .error fault => .error fault
  | .ok (none, _) => .error .malformed
  | .ok (some cs, rest) => .ok (String.ofList cs, rest)

/-- Passes over the escape behind a backslash. -/
def skipEscape : Source → Except Fault Source
  | [] => .error .ended
  | none :: _ => .error .malformed
  | some 'u' :: rest => (fourDigits rest).map Prod.snd
  | some c :: rest => if (shortEscape? c).isSome then .ok rest else .error .malformed

def skipStringBody : (fuel : Nat) → Source → Except Fault Source
  | 0, _ => .error .ended
  | _ + 1, [] => .error .ended
  | fuel + 1, none :: rest => skipStringBody fuel rest
  | fuel + 1, some c :: rest =>
    if c = '"' then
      .ok rest
    else if c = '\\' then
      match skipEscape rest with
      | .error fault => .error fault
      | .ok rest => skipStringBody fuel rest
    else if c.toNat < 32 then
      .error .malformed
    else
      skipStringBody fuel rest

/-- Passes over a string whose opening quote is passed. -/
def skipString (s : Source) : Except Fault Source := skipStringBody (s.length + 1) s

/-! ### Numbers -/

inductive Number where
  | integer (value : Int)
  | decimal (value : Float)

def isDigit (c : Option Char) : Bool := c.any Text.isDigit

/-- The digits at the front of a text. -/
def digits (s : Source) : List Char × Source := ((s.takeWhile isDigit).filterMap id, s.dropWhile isDigit)

/-- Appends digits to a mantissa while it stays a word, and counts the digits that no longer fit. -/
def extend : (mantissa : Nat) → List Char → Nat × Nat
  | mantissa, [] => (mantissa, 0)
  | mantissa, d :: ds =>
    let longer := 10 * mantissa + Text.digitValue d
    if longer < wordLimit then extend longer ds else (mantissa, ds.length + 1)

/-- Divides by powers of ten that a double can hold until the exponent is one of them. -/
def scaleDown : (fuel : Nat) → Float → Int → Float
  | 0, _, _ => 0
  | fuel + 1, x, exponent =>
    if -308 ≤ exponent then x / Float.ofScientific 1 false exponent.natAbs
    else if x == 0 then 0
    else scaleDown fuel (x / Float.ofScientific 1 false 308) (exponent + 308)

/-- The double `mantissa * 10 ^ exponent`, unless it is too large for one. -/
def scaled? (mantissa : Nat) (exponent : Int) : Option Float :=
  let x := Float.ofNat mantissa
  if exponent < 0 then some (scaleDown 5 x exponent)
  else if mantissa = 0 then some 0
  else if 308 < exponent then none
  else
    let y := x * Float.ofScientific 1 false exponent.toNat
    if y.isInf then none else some y

def decimal (negative : Bool) (mantissa : Nat) (exponent : Int) (rest : Source) : Result Number :=
  match scaled? mantissa exponent with
  | some x => .ok (.decimal (if negative then -x else x), rest)
  | none => .error .malformed

/-- The exponent behind the letter; without a sign it is positive. -/
def exponent (negative : Bool) (mantissa : Nat) (start : Int) (s : Source) : Result Number :=
  let (down, s) : Bool × Source := match s with
    | some '+' :: rest => (false, rest)
    | some '-' :: rest => (true, rest)
    | s => (false, s)
  match s with
  | [] => .error .ended
  | c :: _ =>
    if isDigit c then
      let (ds, rest) := digits s
      let size := Text.digitsValue ds
      if Nat.pow 2 31 ≤ size then
        if mantissa ≠ 0 ∧ down = false then .error .malformed
        else .ok (.decimal (if negative then -0 else 0), rest)
      else
        decimal negative mantissa (if down then start - size else start + size) rest
    else .error .malformed

def exponentOrEnd (negative : Bool) (mantissa : Nat) (start : Int) : Source → Result Number
  | some 'e' :: rest | some 'E' :: rest => exponent negative mantissa start rest
  | s => decimal negative mantissa start s

/-- The digits behind the point, and the exponent. -/
def fraction (negative : Bool) (mantissa : Nat) (start : Int) (s : Source) : Result Number :=
  let (ds, rest) := digits s
  if ds = [] then
    if rest = [] then .error .ended else .error .malformed
  else
    let (mantissa, dropped) := extend mantissa ds
    exponentOrEnd negative mantissa (start - (ds.length - dropped : Nat)) rest

/-- A whole number is an integer if it is one of 64 bits other than minus zero. -/
def whole (negative : Bool) (mantissa dropped : Nat) (rest : Source) : Result Number :=
  if dropped ≠ 0 then decimal negative mantissa dropped rest
  else if negative = false then .ok (.integer mantissa, rest)
  else if mantissa = 0 ∨ signedLimit < mantissa then decimal true mantissa 0 rest
  else .ok (.integer (-mantissa), rest)

def unsigned (negative : Bool) (s : Source) : Result Number :=
  let (ds, rest) := digits s
  if ds = [] then
    if s = [] then .error .ended else .error .malformed
  else if ds.head? = some '0' ∧ 1 < ds.length then
    .error .malformed
  else
    let (mantissa, dropped) := extend 0 ds
    match rest with
    | some '.' :: rest => fraction negative mantissa dropped rest
    | some 'e' :: rest | some 'E' :: rest => exponent negative mantissa dropped rest
    | rest => whole negative mantissa dropped rest

def number : Source → Result Number
  | some '-' :: rest => unsigned true rest
  | s => unsigned false s

/-- Passes over an exponent, if there is one. -/
def skipExponent : Source → Except Fault Source
  | some 'e' :: rest | some 'E' :: rest =>
    let s : Source := match rest with
      | some '+' :: rest | some '-' :: rest => rest
      | s => s
    let (ds, rest) := digits s
    if ds = [] then .error .malformed else .ok rest
  | s => .ok s

/-- Passes over the digits and the exponent of a number. -/
def skipUnsigned (s : Source) : Except Fault Source :=
  let (ds, rest) := digits s
  if ds = [] ∨ (ds.head? = some '0' ∧ 1 < ds.length) then .error .malformed
  else
    match rest with
    | some '.' :: rest =>
      let (ds, rest) := digits rest
      if ds = [] then .error .malformed else skipExponent rest
    | rest => skipExponent rest

def skipNumber : Source → Except Fault Source
  | some '-' :: rest => skipUnsigned rest
  | s => skipUnsigned s

/-! ### Values that nobody asks for -/

/-- Whether a number starts with the character. -/
def startsNumber (c : Char) : Bool := c == '-' || Text.isDigit c

mutual

/-- Passes over any value. -/
def skipValue : (fuel : Nat) → Source → Except Fault Source
  | 0, _ => .error .ended
  | fuel + 1, s =>
    match skipBlank s with
    | [] => .error .ended
    | some 'n' :: rest => literal ['u', 'l', 'l'] rest
    | some 't' :: rest => literal ['r', 'u', 'e'] rest
    | some 'f' :: rest => literal ['a', 'l', 's', 'e'] rest
    | some '"' :: rest => skipString rest
    | some '[' :: rest =>
      match skipBlank rest with
      | some ']' :: rest => .ok rest
      | rest => skipElements fuel rest
    | some '\x7b' :: rest =>
      match skipBlank rest with
      | some '\x7d' :: rest => .ok rest
      | rest => skipMembers fuel rest
    | some c :: rest => if startsNumber c then skipNumber (some c :: rest) else .error .malformed
    | none :: _ => .error .malformed

/-- Passes over the values of a list and its closing bracket. -/
def skipElements : (fuel : Nat) → Source → Except Fault Source
  | 0, _ => .error .ended
  | fuel + 1, s =>
    match skipValue fuel s with
    | .error fault => .error fault
    | .ok s =>
      match skipBlank s with
      | [] => .error .ended
      | some ',' :: rest => skipElements fuel rest
      | some ']' :: rest => .ok rest
      | _ => .error .malformed

/-- Passes over the members of an object and its closing brace. -/
def skipMembers : (fuel : Nat) → Source → Except Fault Source
  | 0, _ => .error .ended
  | fuel + 1, s =>
    match skipBlank s with
    | [] => .error .ended
    | some '"' :: rest =>
      match skipString rest with
      | .error fault => .error fault
      | .ok s =>
        match skipBlank s with
        | [] => .error .ended
        | some ':' :: rest =>
          match skipValue fuel rest with
          | .error fault => .error fault
          | .ok s =>
            match skipBlank s with
            | [] => .error .ended
            | some ',' :: rest => skipMembers fuel rest
            | some '\x7d' :: rest => .ok rest
            | _ => .error .malformed
        | _ => .error .malformed
    | _ => .error .malformed

end

/-- Passes over any value, of any depth. -/
def skip (s : Source) : Except Fault Source := skipValue (2 * s.length + 2) s

end ChunkedStorage.Json
