import StepLang.Number.Reading

/-! # The numbers of JSON texts

A number is read as an integer of 64 bits that is scaled by a power of ten. Digits that no longer
fit are left out, and the scaling is rounded once more, so that a number need not be the one that
is nearest to its digits.
-/

namespace StepLang.Json

/-- An integer and the power of ten that it is scaled by. -/
structure Numeral where
  significand : Nat
  exponent : Int
  deriving DecidableEq, Repr

namespace Numeral

/-- Appends digits to an integer as long as it fits into 64 bits. Gives the integer and how many
digits it took. -/
def append (n : Nat) : List Char → Nat × Nat
  | [] => (n, 0)
  | c :: cs =>
    let next := n * 10 + (c.toNat - '0'.toNat)
    if (next : Int) ≤ Number.Bounds.count64.high then
      let (n, taken) := append next cs
      (n, taken + 1)
    else (n, 0)

/-- The numeral with the given digits before and after the point. A digit left out before the point
counts as a power of ten. -/
def ofDigits (whole fraction : List Char) : Numeral :=
  let (n, taken) := append 0 whole
  let left : Int := whole.length - taken
  let (n, places) := append n fraction
  ⟨n, left - places⟩

def greatestPower : Nat := 308

def power (n : Nat) : Float :=
  Number.ofDecimal 1 n

/-- A number scaled by a power of ten. A power beyond the greatest one is taken in steps downwards,
and is infinite upwards. -/
def scale (x : Float) (exponent : Int) : Float :=
  if exponent.natAbs ≤ greatestPower then
    if 0 ≤ exponent then x * power exponent.natAbs else x / power exponent.natAbs
  else if x == 0.0 then x
  else if 0 ≤ exponent then 1.0 / 0.0
  else scale (x / power greatestPower) (exponent + greatestPower)
termination_by exponent.natAbs
decreasing_by simp_all [greatestPower]; omega

/-- The number that a numeral denotes; an infinite one if it is too large. -/
def value (n : Numeral) : Float :=
  scale (Float.ofNat n.significand) n.exponent

end Numeral

end StepLang.Json
