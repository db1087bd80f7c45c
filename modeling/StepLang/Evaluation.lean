import StepLang.Evaluation.Operator
import StepLang.Function
import StepLang.Log

/-! # Evaluation of expressions

Expressions are evaluated in a scope, which knows the values of variables, arrays and macro
variables. A macro variable that the scope does not know stands for its own text.
-/

namespace StepLang

/-- What an expression can refer to, and the number of the current day. -/
structure Scope where
  value : String → Value
  element : String → Int → Except Error Value := fun array _ => .error (.undefinedArray array)
  arraySize? : String → Option Nat := fun _ => none
  macroText? : String → Option String := fun _ => none
  today : Int

/-- The value of a macro text: a number if it reads as one. -/
def macroValue (text : String) : Value :=
  match Number.read? (Text.trim text) with
  | some x => .number x
  | none => .text text

/-- The subscript that a value denotes in an array; the missing number denotes none. -/
def subscript (array : String) (size : Option Nat) (v : Value) : Except Error Int :=
  let x := v.toNumber
  if x.isNaN then .error (.subscriptOutOfRange array 0 (size.getD 0))
  else .ok (Number.clamp .signed64 x)

def dimension (scope : Scope) : List Expression → Except Error Value
  | [.ref array] =>
    match scope.arraySize? array with
    | some n => .ok (.ofNat n)
    | none => .error (.undefinedArray array)
  | _ => .error (.invalidArguments "DIM" "expected an array name")

mutual

def evaluate (scope : Scope) : Expression → Except Error Value
  | .number x => .ok (.number x)
  | .text s => .ok (.text s)
  | .missing => .ok .missing
  | .ref name => .ok (scope.value name)
  | .macroRef name =>
    match scope.macroText? name with
    | some text => .ok (macroValue text)
    | none => .ok (.text ("&" ++ name))
  | .binary .and left right => do
    let v ← evaluate scope left
    if v.isTrue then return .ofBool (← evaluate scope right).isTrue else return .ofBool false
  | .binary .or left right => do
    let v ← evaluate scope left
    if v.isTrue then return .ofBool true else return .ofBool (← evaluate scope right).isTrue
  | .binary op left right => do
    let v ← evaluate scope left
    let w ← evaluate scope right
    return op.apply v w
  | .unary op operand => do
    return op.apply (← evaluate scope operand)
  | .call function args =>
    if Text.sameName function "dim" then dimension scope args
    else do
      let values ← evaluateAll scope args
      Function.call scope.today function values
  | .element array index => do
    let v ← evaluate scope index
    let i ← subscript array (scope.arraySize? array) v
    scope.element array i

def evaluateAll (scope : Scope) : List Expression → Except Error (List Value)
  | [] => .ok []
  | e :: es => do
    let v ← evaluate scope e
    let vs ← evaluateAll scope es
    return v :: vs

end

mutual

def Expression.hasMacro : Expression → Bool
  | .macroRef _ => true
  | .binary _ left right => left.hasMacro || right.hasMacro
  | .unary _ operand => operand.hasMacro
  | .call _ args => Expression.anyMacro args
  | .element _ index => index.hasMacro
  | _ => false

def Expression.anyMacro : List Expression → Bool
  | [] => false
  | e :: es => e.hasMacro || Expression.anyMacro es

end

mutual

/-- The macro variables that evaluation asks for and the scope does not know, in the order in which
it asks for them. Operands that evaluation does not reach are left out. -/
def unresolved (scope : Scope) : Expression → List String
  | .macroRef name => if (scope.macroText? name).isSome then [] else [name]
  | .binary op left right =>
    unresolved scope left ++
      match evaluate scope left, op with
      | .ok v, .and => if v.isTrue then unresolved scope right else []
      | .ok v, .or => if v.isTrue then [] else unresolved scope right
      | .ok _, _ => unresolved scope right
      | .error _, _ => []
  | .unary _ operand => unresolved scope operand
  | .call function args =>
    if Text.sameName function "dim" then [] else unresolvedAll scope args
  | .element _ index => unresolved scope index
  | _ => []

/-- The unknown macro variables of expressions, up to the first one that fails. -/
def unresolvedAll (scope : Scope) : List Expression → List String
  | [] => []
  | e :: es =>
    unresolved scope e ++
      match evaluate scope e with
      | .ok _ => unresolvedAll scope es
      | .error _ => []

end

def evaluationLog (scope : Scope) (e : Expression) : List LogLine :=
  if e.hasMacro then
    (unresolved scope e).map fun name =>
      ⟨.warn, s!"WARNING: Apparent symbolic reference {Text.upper name} not resolved."⟩
  else []

end StepLang
