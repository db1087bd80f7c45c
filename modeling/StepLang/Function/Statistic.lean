import StepLang.Value

/-! # Statistics over arguments

Missing arguments are left out; if all are missing, so are the sum, the mean and the extremes.
-/

namespace StepLang.Function

def present (args : List Value) : List Float :=
  ((args.filter (! ·.isMissing)).map Value.toNumber).filter (! ·.isNaN)

/-- The sum of numbers from the first to the last. -/
def total (xs : List Float) : Float :=
  xs.foldl (· + ·) 0.0

/-- The smaller of two numbers; of two equal ones the second. -/
def smaller (x y : Float) : Float :=
  if x < y then x else y

/-- The larger of two numbers; of two equal ones the second. -/
def larger (x y : Float) : Float :=
  if y < x then x else y

/-- The numbers combined by `f` from the first to the last; missing if there is none. -/
def reduce (f : Float → Float → Float) : List Float → Value
  | [] => .missing
  | x :: xs => .number (xs.foldl f x)

def sum (args : List Value) : Value :=
  match present args with
  | [] => .missing
  | xs => .number (total xs)

def mean (args : List Value) : Value :=
  match present args with
  | [] => .missing
  | xs => .number (total xs / Float.ofNat xs.length)

end StepLang.Function
