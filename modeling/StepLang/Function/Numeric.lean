import StepLang.Value

/-! # Numeric functions

Missing arguments give missing results, and so do arguments outside a function's domain.
-/

namespace StepLang.Function

/-- The result of a numeric function: missing for a missing argument, and where `f` is not
finite. -/
def mapNumber (f : Float → Float) (v : Value) : Value :=
  let x := v.toNumber
  if x.isNaN then .missing else .finite (f x)

/-- The result of a numeric function that is defined for positive numbers only. -/
def mapPositive (f : Float → Float) : Value → Value :=
  mapNumber fun x => if 0.0 < x then f x else Number.missing

def roundTo (places : Int) (v : Value) : Value :=
  let factor := Number.integerPower 10.0 places
  mapNumber (fun x => Number.nearest (x * factor) / factor) v

/-- The places a number is rounded to are an integer of 32 bits. -/
def toPlaces (v : Value) : Int :=
  Number.clamp .signed32 v.toNumber

/-- The remainder of a division with the sign of the dividend; there is none by zero. -/
def modulo (v w : Value) : Value :=
  let divisor := w.toNumber
  if divisor.isNaN || divisor == 0.0 then .missing
  else mapNumber (Number.remainder · divisor) v

end StepLang.Function
