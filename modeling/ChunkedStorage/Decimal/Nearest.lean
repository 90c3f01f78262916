/-!
# Rounding to 53 bits

A positive fraction rounded to the nearest number with a mantissa of 53 bits; of two that are equally near, to the one
with the even mantissa. The exponent is not bounded.
-/

namespace ChunkedStorage.Decimal

/-- The number `mantissa * 2 ^ exponent`. -/
structure Binary where
  mantissa : Nat
  exponent : Int
deriving DecidableEq

/-- The quotient rounded to the nearest whole number, halves to the even one. -/
def roundQuotient (num den : Nat) : Nat :=
  let twice := 2 * (num % den)
  if twice < den ∨ (twice = den ∧ num / den % 2 = 0) then num / den else num / den + 1

/-- The fraction `num / den * 2 ^ shift`, as numerator and denominator. -/
def scale (num den : Nat) (shift : Int) : Nat × Nat :=
  if shift < 0 then (num, den * Nat.pow 2 (-shift).toNat) else (num * Nat.pow 2 shift.toNat, den)

/-- The number with a mantissa of 53 bits that is nearest to `num / den`. -/
def nearest (num den : Nat) : Binary :=
  if num = 0 then ⟨0, 0⟩
  else
    let guess : Int := Int.ofNat num.log2 - Int.ofNat den.log2 - 52
    let (n, d) := scale num den (-guess)
    let exponent := if n < Nat.pow 2 52 * d then guess - 1 else guess
    let (n, d) := scale num den (-exponent)
    ⟨roundQuotient n d, exponent⟩

/-- The whole part of a number. -/
def Binary.floor (b : Binary) : Nat :=
  if b.exponent < 0 then b.mantissa / Nat.pow 2 (-b.exponent).toNat else b.mantissa * Nat.pow 2 b.exponent.toNat

/-- The number `2 ^ k` times as large. -/
def Binary.shift (b : Binary) (k : Nat) : Binary := { b with exponent := b.exponent + k }

end ChunkedStorage.Decimal
