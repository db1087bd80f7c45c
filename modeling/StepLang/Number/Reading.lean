import StepLang.Number.Parts
import StepLang.Text.Blank

/-! # Reading numbers

The decimal notation of numbers: a sign, digits with a point anywhere among them, and a power of
ten. A decimal denotes the nearest number.
-/

namespace StepLang.Number

/-- The number nearest to `digits * 10 ^ exponent`. -/
def ofDecimal (digits : Nat) (exponent : Int) : Float :=
  if digits = 0 then 0.0
  else
    let size : Int := Nat.log2 digits * 301 / 1000 + exponent
    if 310 < size then 1.0 / 0.0
    else if size < -330 then 0.0
    else Float.ofScientific digits (exponent < 0) exponent.natAbs

def digitsValue (digits : List Char) : Nat :=
  digits.foldl (fun n c => n * 10 + (c.toNat - '0'.toNat)) 0

/-- The number with the given digits before and after the point, scaled by a power of ten. -/
def ofDigits (whole fraction : List Char) (exponent : Int) : Float :=
  ofDecimal (digitsValue (whole ++ fraction)) (exponent - fraction.length)

def splitSign : List Char → Bool × List Char
  | '-' :: cs => (true, cs)
  | '+' :: cs => (false, cs)
  | cs => (false, cs)

/-- The power of ten behind an exponent mark; no mark stands for the power zero. -/
def readExponent : List Char → Option Int
  | [] => some 0
  | c :: cs =>
    if c == 'e' || c == 'E' then
      let (negative, digits) := splitSign cs
      if digits.isEmpty || !digits.all Char.isDigit then none
      else
        let n : Int := digitsValue digits
        some (if negative then -n else n)
    else none

def readMagnitude (cs : List Char) : Option Float :=
  let whole := cs.takeWhile Char.isDigit
  let rest := cs.dropWhile Char.isDigit
  let (fraction, rest) :=
    match rest with
    | '.' :: ds => (ds.takeWhile Char.isDigit, ds.dropWhile Char.isDigit)
    | _ => ([], rest)
  if whole.isEmpty && fraction.isEmpty then none
  else (readExponent rest).map (ofDigits whole fraction)

/-- Reads a number; `inf`, `infinity` and `nan` are numbers in any case of letters. -/
def read? (s : String) : Option Float :=
  let (negative, cs) := splitSign s.toList
  let magnitude :=
    match String.ofList (cs.map Char.toLower) with
    | "inf" | "infinity" => some (1.0 / 0.0)
    | "nan" => some (0.0 / 0.0)
    | _ => readMagnitude cs
  magnitude.map fun x => if negative then -x else x

/-- Reads a count of 64 bits: digits after an optional plus sign. -/
def readCount? (s : String) : Option Nat :=
  let digits :=
    match s.toList with
    | '+' :: cs => cs
    | cs => cs
  if digits.isEmpty || !digits.all Char.isDigit then none
  else
    let n := digitsValue digits
    if (n : Int) ≤ Bounds.count64.high then some n else none

end StepLang.Number
