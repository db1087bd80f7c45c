import StepLang.Number.Parts
import StepLang.Number.Reading

/-! # Writing numbers

The shortest decimal of a number, and its decimal with a fixed count of places. Neither is
written with a power of ten.
-/

namespace StepLang.Number

/-- A decimal: `digits * 10 ^ exponent`. -/
structure Decimal where
  digits : Nat
  exponent : Int
  deriving DecidableEq, Repr

def powerOfTen (n : Nat) : Nat :=
  Nat.pow 10 n

/-- Two fractions over powers of two and ten are compared as integers: `a * 10 ^ p` on the scale
on which `b * 2 ^ q` is an integer too. -/
def tenScaled (a : Nat) (p q : Int) : Nat :=
  (a * powerOfTen p.toNat) <<< (-q).toNat

/-- The counterpart of `tenScaled`: `b * 2 ^ q` on the scale shared with `a * 10 ^ p`. -/
def twoScaled (b : Nat) (p q : Int) : Nat :=
  (b <<< q.toNat) * powerOfTen (-p).toNat

/-- Which of two equally near decimals is taken. -/
inductive Tie where
  | upper
  | even
  deriving DecidableEq, Repr

/-- The choice between a decimal and the next one above it, which are equally near: the upper one
is taken. -/
def Tie.takesUpper (tie : Tie) (below : Nat) : Bool :=
  match tie with
  | .upper => true
  | .even => below % 2 == 1

/-- Of the two neighbours of `m * 2 ^ q` among the multiples of `10 ^ p`, one that reads back as
`x`: the nearer if both do. -/
def neighbour? (tie : Tie) (x : Float) (m : Nat) (q p : Int) : Option Decimal :=
  let value := twoScaled m p q
  let unit := tenScaled 1 p q
  let below := value / unit
  let low := ofDecimal below p == x
  let high := ofDecimal (below + 1) p == x
  let twice := 2 * (value % unit)
  let upper :=
    if low && high then unit < twice || (unit == twice && tie.takesUpper below) else high
  if upper then some ⟨below + 1, p⟩
  else if low then some ⟨below, p⟩
  else none

/-- The first multiple of a power of ten that reads back as `x`, over `steps` powers downwards
from `10 ^ p`. -/
def coarsest (tie : Tie) (x : Float) (m : Nat) (q : Int) : Nat → Int → Decimal
  | 0, p => ⟨twoScaled m p q / tenScaled 1 p q, p⟩
  | steps + 1, p =>
    match neighbour? tie x m q p with
    | some d => d
    | none => coarsest tie x m q steps (p - 1)

/-- A decimal with the fewest digits among those that read back as the positive number `x`, whose
magnitude is `m * 2 ^ q`. -/
def shortest (tie : Tie) (x : Float) (m : Nat) (q : Int) : Decimal :=
  if m = 0 then ⟨0, 0⟩
  else coarsest tie x m q 24 ((Nat.log2 m + q + 1) * 30103 / 100000 + 1)

/-- The decimal without its trailing zero digits; the bound is on their count. -/
def Decimal.strip (d : Decimal) : Nat → Decimal
  | 0 => d
  | bound + 1 =>
    if d.digits ≠ 0 ∧ d.digits % 10 = 0 then Decimal.strip ⟨d.digits / 10, d.exponent + 1⟩ bound
    else d

/-- A decimal in digits, with a point if it has places after it. -/
def Decimal.toText (d : Decimal) : String :=
  let digits := Nat.toDigits 10 d.digits
  if 0 ≤ d.exponent then
    String.ofList (digits ++ List.replicate (if d.digits = 0 then 0 else d.exponent.natAbs) '0')
  else
    let places := d.exponent.natAbs
    let padded := List.replicate (places + 1 - digits.length) '0' ++ digits
    let whole := padded.length - places
    String.ofList (padded.take whole ++ '.' :: padded.drop whole)

def withSign (negative : Bool) (s : String) : String :=
  if negative then "-" ++ s else s

/-- The number in the fewest digits that read back, without a power of ten. -/
def toText (x : Float) : String :=
  match parts x with
  | .missing => "NaN"
  | .infinite negative => withSign negative "inf"
  | .finite negative m q => withSign negative (shortest .upper x.abs m q).toText

/-- The nearest integer to `numerator / denominator`; a half goes to the even neighbour. -/
def divideToEven (numerator denominator : Nat) : Nat :=
  let quotient := numerator / denominator
  let twice := 2 * (numerator % denominator)
  if twice < denominator then quotient
  else if denominator < twice then quotient + 1
  else quotient + quotient % 2

/-- The magnitude `m * 2 ^ q` with the given count of places after the point. -/
def fixed (places m : Nat) (q : Int) : Decimal :=
  ⟨divideToEven ((m <<< q.toNat) * powerOfTen places) (1 <<< (-q).toNat), -(places : Int)⟩

def toFixedText (places : Nat) (x : Float) : String :=
  match parts x with
  | .missing => "NaN"
  | .infinite negative => withSign negative "inf"
  | .finite negative m q => withSign negative (fixed places m q).toText

/-- Whole numbers below this magnitude are listed without a point. -/
def wholeLimit : Float := 1e15

def listedPlaces : Nat := 9

/-- The number as it is listed: a point alone if missing, whole numbers without a fraction, and
other numbers with up to nine places. -/
def listed (x : Float) : String :=
  match parts x with
  | .missing => "."
  | .infinite negative => withSign negative "inf"
  | .finite .. =>
    if isWhole x && x.abs < wholeLimit then toString (clamp .signed64 x)
    else
      let cs := (toFixedText listedPlaces x).toList.reverse.dropWhile (· == '0')
      let text := String.ofList (cs.dropWhile (· == '.')).reverse
      if text == "-0" then "0" else text

end StepLang.Number
