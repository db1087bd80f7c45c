/-! # Expressions

Expression trees and the binding strength of their operators.
-/

namespace StepLang

inductive BinaryOp where
  | add | sub | mul | div | pow | eq | notEq | lt | gt | ltEq | gtEq | and | or | concat
  deriving DecidableEq, Repr

namespace BinaryOp

/-- The binding strength; a stronger operator binds its operands first. -/
def precedence : BinaryOp → Nat
  | or => 1
  | and => 2
  | eq | notEq | lt | gt | ltEq | gtEq => 3
  | concat => 4
  | add | sub => 5
  | mul | div => 6
  | pow => 7

/-- A chain of the operator groups from the right. -/
def isRightAssociative (op : BinaryOp) : Bool :=
  op == pow

def toText : BinaryOp → String
  | add => "+" | sub => "-" | mul => "*" | div => "/" | pow => "**" | eq => "=" | notEq => "^="
  | lt => "<" | gt => ">" | ltEq => "<=" | gtEq => ">=" | and => "AND" | or => "OR"
  | concat => "||"

end BinaryOp

inductive UnaryOp where
  | neg | plus | not
  deriving DecidableEq, Repr

inductive Expression where
  | number (x : Float)
  | text (s : String)
  | missing
  | ref (name : String)
  | macroRef (name : String)
  | binary (op : BinaryOp) (left right : Expression)
  | unary (op : UnaryOp) (operand : Expression)
  | call (function : String) (args : List Expression)
  | element (array : String) (index : Expression)
  deriving Repr, Inhabited

end StepLang
