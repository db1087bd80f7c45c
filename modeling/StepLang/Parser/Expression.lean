import StepLang.Parser.Names
import StepLang.Syntax.Expression

/-! # Parsing expressions

Operators are grouped by their binding strength. Every nested expression stands behind a token
of its own, so the count of tokens ahead bounds the nesting.
-/

namespace StepLang.Parser

def binaryOp? : Token.Kind → Option BinaryOp
  | .keyword .OR => some .or
  | .keyword .AND => some .and
  | .symbol .assign | .symbol .eq => some .eq
  | .symbol .notEq => some .notEq
  | .symbol .lt => some .lt
  | .symbol .gt => some .gt
  | .symbol .ltEq => some .ltEq
  | .symbol .gtEq => some .gtEq
  | .symbol .concat => some .concat
  | .symbol .plus => some .add
  | .symbol .minus => some .sub
  | .symbol .star => some .mul
  | .symbol .slash => some .div
  | .symbol .starStar => some .pow
  | _ => none

def unaryOp? : Token.Kind → Option UnaryOp
  | .symbol .minus => some .neg
  | .symbol .plus => some .plus
  | .keyword .NOT => some .not
  | _ => none

/-- A unary operator applied to an expression; the minus of a number is part of the number. -/
def applyUnary : UnaryOp → Expression → Expression
  | .neg, .number x => .number (-x)
  | op, e => .unary op e

def closing? : Token.Kind → Option Symbol
  | .symbol .leftBracket => some .rightBracket
  | .symbol .leftBrace => some .rightBrace
  | .symbol .leftParen => some .rightParen
  | _ => none

/-- Reads an index in brackets of any form. -/
def subscript (expression : Parser Expression) : Parser Expression := do
  let opening ← advance
  match closing? opening.kind with
  | none => throw (unexpected "subscript" opening)
  | some close =>
    let index ← expression
    expectSymbol close "closing subscript"
    return index

def atVariableList : Parser Bool := do
  match (← peek).kind with
  | .name word => return Text.sameName word "of" && (← peekNext).name?.isSome
  | _ => return false

/-- A name without the digits at its end, and the number that these are; the name may be digits
only. -/
def splitDigits? (name : String) : Option (String × Nat) :=
  let digits := (name.toList.reverse.takeWhile Char.isDigit).reverse
  let stem := name.toList.take (name.length - digits.length)
  (Number.readCount? (String.ofList digits)).map (String.ofList stem, ·)

/-- The names of a range behind `OF`. A range that is no numbered one stands for its two names. -/
def expandRange (first last : String) : List String :=
  match splitDigits? first, splitDigits? last with
  | some (stem, low), some (stem', high) =>
    if Text.sameName stem stem' && !stem.isEmpty && low ≤ high then
      (List.range' low (high + 1 - low)).map fun i => stem ++ toString i
    else [first, last]
  | _, _ => [first, last]

def variableList : Parser (List Expression) := do
  let _ ← advance
  let names ← repeated [] fun names => do
    if ← accept (.symbol .rightParen) then return .done names
    else
      let first ← expectName "variable name"
      if ← accept (.symbol .minus) then
        let last ← expectName "variable name"
        return .again (names ++ expandRange first last)
      else return .again (names ++ [first])
  return names.map .ref

def arguments (expression : Parser Expression) : Parser (List Expression) := do
  if ← accept (.symbol .rightParen) then return []
  else if ← atVariableList then variableList
  else
    repeated [] fun args => do
      let args := args ++ [← expression]
      if ← accept (.symbol .comma) then return .again args
      else
        expectSymbol .rightParen ")"
        return .done args

def nameSuffix (expression : Parser Expression) (name : String) : Parser Expression := do
  match (← peek).kind with
  | .symbol .leftBracket | .symbol .leftBrace => return .element name (← subscript expression)
  | .symbol .leftParen =>
    if ← isArray name then return .element name (← subscript expression)
    else
      let _ ← advance
      return .call name (← arguments expression)
  | _ => return .ref name

/-- Reads a literal, a name with what follows it, or an expression in parentheses. -/
def primary (expression : Parser Expression) : Parser Expression := do
  let t ← peek
  match t.kind with
  | .number x => let _ ← advance; return .number x
  | .text s => let _ ← advance; return .text s
  | .symbol .dot => let _ ← advance; return .missing
  | .macroName name => let _ ← advance; return .macroRef name
  | .symbol .leftParen =>
    let _ ← advance
    let e ← expression
    expectSymbol .rightParen ")"
    return e
  | _ =>
    match t.name? with
    | some name =>
      let _ ← advance
      nameSuffix expression name
    | none => throw (unexpected "expression" t)

/-- Reads unary operators, at most as many as the bound, and their operand. -/
def unary (expression : Parser Expression) : Nat → Parser Expression
  | 0 => throw .unexpectedEnd
  | bound + 1 => do
    match unaryOp? (← peek).kind with
    | some op =>
      let _ ← advance
      return applyUnary op (← unary expression bound)
    | none => primary expression

/-- The least binding strength of operators in the right operand of an operator. -/
def rightStrength (op : BinaryOp) : Nat :=
  if op.isRightAssociative then op.precedence else op.precedence + 1

/-- Reads operands and the operators between them that bind at least as strongly as `strength`.
The depth bounds the nesting. -/
def operation : (depth strength : Nat) → Parser Expression
  | 0, _ => throw .unexpectedEnd
  | depth + 1, strength => do
    let first ← unary (operation depth 1) ((← get).ahead.length + 1)
    repeated first fun left => do
      match binaryOp? (← peek).kind with
      | none => return .done left
      | some op =>
        if op.precedence < strength then return .done left
        else
          let _ ← advance
          return .again (.binary op left (← operation depth (rightStrength op)))

def expression : Parser Expression := do
  operation ((← get).ahead.length + 1) 1

end StepLang.Parser
