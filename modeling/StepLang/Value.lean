import StepLang.Number.Decimal
import StepLang.Text.Blank

/-! # Values

A value is a number or a text. The number that is not a number is the missing number, and blank
text is missing text.
-/

namespace StepLang

inductive Kind where
  | numeric
  | character
  deriving DecidableEq, Repr, Inhabited

inductive Value where
  | number (x : Float)
  | text (s : String)
  deriving DecidableEq, Repr, Inhabited

namespace Value

def missing : Value := number Number.missing

def missingOf : Kind → Value
  | .numeric => missing
  | .character => text ""

/-- One for truth and zero for falsity. -/
def ofBool (b : Bool) : Value :=
  number (if b then 1.0 else 0.0)

def ofNat (n : Nat) : Value :=
  number (Float.ofNat n)

/-- A number that is finite, and otherwise the missing number. -/
def finite (x : Float) : Value :=
  if x.isFinite then number x else missing

def kind : Value → Kind
  | number _ => .numeric
  | text _ => .character

def isMissing : Value → Bool
  | number x => x.isNaN
  | text s => s.toList.all Text.isBlank

/-- The value as a number; text that is no number counts as zero. -/
def toNumber : Value → Float
  | number x => x
  | text s => (Number.read? (Text.trim s)).getD 0.0

/-- The value as text; a number is written as it is listed. -/
def toText : Value → String
  | number x => Number.listed x
  | text s => s

/-- The value is a number other than zero and not missing. -/
def isTrue (v : Value) : Bool :=
  let x := v.toNumber
  !x.isNaN && x != 0.0

/-- The value converted to a kind. Missing values stay missing. -/
def convert (v : Value) : Kind → Value
  | .numeric =>
    match v with
    | number x => number x
    | text _ => if v.isMissing then missing else number v.toNumber
  | .character =>
    match v with
    | number x => if x.isNaN then text "" else text (Number.listed x)
    | text s => text s

end Value

/-- Numbers nearer to each other than this are taken for equal. -/
def tolerance : Float := 1e-7

/-- The order of numbers with the missing number lowest; the two zeros are equal. -/
def orderNumbers (x y : Float) : Ordering :=
  if x.isNaN then if y.isNaN then .eq else .lt
  else if y.isNaN then .gt
  else if x < y then .lt
  else if y < x then .gt
  else .eq

/-- The comparison of numbers: as by their order, but numbers within the tolerance are equal. -/
def compareNumbers (x y : Float) : Ordering :=
  if x.isNaN then if y.isNaN then .eq else .lt
  else if y.isNaN then .gt
  else if (x - y).abs < tolerance then .eq
  else if x < y then .lt
  else .gt

/-- The comparison of texts by code points, their trailing blanks left out. -/
def compareTexts (s t : String) : Ordering :=
  compare (Text.trimEnd s) (Text.trimEnd t)

namespace Value

/-- Values of one kind are compared, numbers with the tolerance. -/
def compare? : Value → Value → Option Ordering
  | number x, number y => some (compareNumbers x y)
  | text s, text t => some (compareTexts s t)
  | _, _ => none

/-- The order by which values of one kind are sorted. -/
def order? : Value → Value → Option Ordering
  | number x, number y => some (orderNumbers x y)
  | text s, text t => some (compareTexts s t)
  | _, _ => none

/-- The values are of one kind and compare equal. -/
def same (v w : Value) : Bool :=
  v.compare? w == some .eq

end Value

end StepLang
