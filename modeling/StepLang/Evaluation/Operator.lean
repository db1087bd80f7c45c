import StepLang.Syntax.Expression
import StepLang.Value

/-! # Operators on values

Arithmetic with a missing operand is missing, and so is a result that is not finite. Comparisons
and logical operators give one or zero.
-/

namespace StepLang

/-- The comparison of two values in an expression: as texts if both are, else as numbers. -/
def Value.relate : Value → Value → Ordering
  | .text s, .text t => compareTexts s t
  | v, w => compareNumbers v.toNumber w.toNumber

def BinaryOp.arithmetic (op : Float → Float → Float) (v w : Value) : Value :=
  let x := v.toNumber
  let y := w.toNumber
  if x.isNaN || y.isNaN then .missing else .finite (op x y)

/-- The quotient of two numbers; there is none by zero. -/
def quotient (x y : Float) : Float :=
  if y == 0.0 then Number.missing else x / y

def truth (b : Bool) : Float :=
  if b then 1.0 else 0.0

def BinaryOp.apply (op : BinaryOp) (v w : Value) : Value :=
  match op with
  | .concat => .text (v.toText ++ w.toText)
  | .eq => .ofBool (v.relate w).isEq
  | .notEq => .ofBool (v.relate w).isNe
  | .lt => .ofBool (v.relate w).isLT
  | .gt => .ofBool (v.relate w).isGT
  | .ltEq => .ofBool (v.relate w).isLE
  | .gtEq => .ofBool (v.relate w).isGE
  | .add => arithmetic (· + ·) v w
  | .sub => arithmetic (· - ·) v w
  | .mul => arithmetic (· * ·) v w
  | .div => arithmetic quotient v w
  | .pow => arithmetic Float.pow v w
  | .and => arithmetic (fun x y => truth (x != 0.0 && y != 0.0)) v w
  | .or => arithmetic (fun x y => truth (x != 0.0 || y != 0.0)) v w

def UnaryOp.apply (op : UnaryOp) (v : Value) : Value :=
  match op with
  | .neg => .number (-v.toNumber)
  | .plus => .number v.toNumber
  | .not => .ofBool !v.isTrue

end StepLang
