import ChunkedStorage.Decimal.Nearest

/-!
# The shortest decimal of a double

A double is shown with the fewest digits that read back as the same double, and among those with the digits nearest to
it. The number shown is positional from `1e-5` up to, and without, `1e16`.
-/

namespace ChunkedStorage.Decimal

/-- The decimal number `digits * 10 ^ exponent`. -/
structure Scaled where
  digits : Nat
  exponent : Int

/-- The fraction `num / den` with the numbers that round to a double lying between `low` and `high` quarter steps. -/
structure Neighbourhood where
  /-- Four times the double, the ends of its rounding interval, and their common denominator. -/
  value : Nat
  low : Nat
  high : Nat
  den : Nat
  /-- Whether the ends themselves round to the double. -/
  closed : Bool

/-- The rounding interval of `mantissa * 2 ^ exponent`; below a power of two the gap is half as wide. -/
def neighbourhood (mantissa : Nat) (exponent : Int) (lowest : Bool) : Neighbourhood :=
  let below := if lowest then 1 else 2
  let (unit, den) := scale 1 4 exponent
  { value := 4 * mantissa * unit
    low := (4 * mantissa - below) * unit
    high := (4 * mantissa + 2) * unit
    den
    closed := mantissa % 2 == 0 }

/-- Whether `digits * 10 ^ exponent` rounds to the double. -/
def Neighbourhood.holds (n : Neighbourhood) (digits : Nat) (exponent : Int) : Bool :=
  let (a, b) := if exponent < 0 then (digits, Nat.pow 10 (-exponent).toNat) else (digits * Nat.pow 10 exponent.toNat, 1)
  let x := a * n.den
  if n.closed then n.low * b ≤ x && x ≤ n.high * b else n.low * b < x && x < n.high * b

/-- The multiples of `10 ^ exponent` next to the double that round to it, the nearest one. -/
def Neighbourhood.onGrid? (n : Neighbourhood) (exponent : Int) : Option Nat :=
  let (num, den) :=
    if exponent < 0 then (n.value * Nat.pow 10 (-exponent).toNat, n.den)
    else (n.value, n.den * Nat.pow 10 exponent.toNat)
  let lower := num / den
  let near := roundQuotient num den
  let far := if near = lower then lower + 1 else lower
  if n.holds near exponent then some near
  else if n.holds far exponent then some far
  else none

/-- Tries the grids from `10 ^ exponent` downwards. -/
def Neighbourhood.search (n : Neighbourhood) : (fuel : Nat) → (exponent : Int) → Scaled
  | 0, exponent => ⟨0, exponent⟩
  | fuel + 1, exponent =>
    match n.onGrid? exponent with
    | some digits => if digits = 0 then n.search fuel (exponent - 1) else ⟨digits, exponent⟩
    | none => n.search fuel (exponent - 1)

/-- The decimal number with the fewest digits that reads back as `mantissa * 2 ^ exponent`. -/
def shortest (mantissa : Nat) (exponent : Int) (lowest : Bool) : Scaled :=
  let n := neighbourhood mantissa exponent lowest
  let top : Int := Int.ofNat (Nat.toDigits 10 (n.value / n.den)).length
  n.search 700 top

/-- The digits of a decimal number without the zeros at their end, and the power of ten of the first one. -/
def Scaled.normal (s : Scaled) : List Char × Int :=
  let digits := Nat.toDigits 10 s.digits
  let kept := (digits.reverse.dropWhile (· == '0')).reverse
  (kept, s.exponent + digits.length - 1)

/-- The text of a number that is not negative, with digits `d.ddd` and a power of ten. -/
def place (digits : List Char) (power : Int) : List Char :=
  if 16 ≤ power ∨ power < -5 then
    let tail := if digits.length ≤ 1 then [] else '.' :: digits.drop 1
    let sign := if power < 0 then '-' else '+'
    digits.take 1 ++ tail ++ 'e' :: sign :: Nat.toDigits 10 power.natAbs
  else if power < 0 then
    ['0', '.'] ++ List.replicate (power.natAbs - 1) '0' ++ digits
  else
    let whole := power.toNat + 1
    let padded := digits ++ List.replicate (whole - digits.length) '0'
    let fraction := padded.drop whole
    padded.take whole ++ '.' :: (if fraction = [] then ['0'] else fraction)

/-- The text of a finite double. -/
def ofFloat (x : Float) : String :=
  let bits := x.toBits.toNat
  let sign := if bits < Nat.pow 2 63 then [] else ['-']
  let raw := bits / Nat.pow 2 52 % Nat.pow 2 11
  let fraction := bits % Nat.pow 2 52
  if raw = 0 ∧ fraction = 0 then
    String.ofList (sign ++ ['0', '.', '0'])
  else
    let mantissa := if raw = 0 then fraction else Nat.pow 2 52 + fraction
    let exponent : Int := Int.ofNat (max raw 1) - 1075
    let (digits, power) := (shortest mantissa exponent (fraction = 0 ∧ 1 < raw)).normal
    String.ofList (sign ++ place digits power)

end ChunkedStorage.Decimal
