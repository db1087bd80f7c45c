import StepLang.Json.Document
import StepLang.Number.Decimal

/-! # Writing JSON

Documents are written over several lines, each level indented by two blanks.
-/

namespace StepLang.Json

/-- Numbers with a point from this power of ten on are written with an exponent. -/
def wholeDigits : Int := 16

/-- Numbers with more zeros than this behind the point are written with an exponent. -/
def leadingZeros : Int := 5

/-- A positive number in the fewest digits that read back, with a point or an exponent. -/
def decimalText (d : Number.Decimal) : String :=
  let d := d.strip 400
  let digits := Nat.toDigits 10 d.digits
  let point := digits.length + d.exponent
  if d.digits = 0 then "0.0"
  else if -leadingZeros < point ∧ point ≤ wholeDigits then
    if 0 ≤ d.exponent then d.toText ++ ".0" else d.toText
  else
    let fraction := if digits.tail.isEmpty then [] else '.' :: digits.tail
    let sign := if 0 < point then "e+" else "e-"
    String.ofList (digits.take 1 ++ fraction) ++ sign ++ toString (point - 1).natAbs

/-- A number; one that is not finite is written as nothing. -/
def numberText (x : Float) : String :=
  match Number.parts x with
  | .finite negative m q => Number.withSign negative (decimalText (Number.shortest .even x.abs m q))
  | _ => "null"

def hexText (n : Nat) : Char :=
  Nat.digitChar n

def escape (c : Char) : List Char :=
  match c with
  | '"' => ['\\', '"']
  | '\\' => ['\\', '\\']
  | '\x08' => ['\\', 'b']
  | '\x0c' => ['\\', 'f']
  | '\n' => ['\\', 'n']
  | '\r' => ['\\', 'r']
  | '\t' => ['\\', 't']
  | _ =>
    if c.toNat < 0x20 then
      ['\\', 'u', '0', '0', hexText (c.toNat / 16), hexText (c.toNat % 16)]
    else [c]

def quote (s : String) : String :=
  "\"" ++ String.ofList (s.toList.flatMap escape) ++ "\""

def newLine (level : Nat) : String :=
  String.ofList ('\n' :: List.replicate (2 * level) ' ')

mutual

def write (level : Nat) : Document → String
  | .null | .broken => "null"
  | .bool b => if b then "true" else "false"
  | .integer n => toString n
  | .number x => numberText x
  | .text s => quote s
  | .list [] => "[]"
  | .list (item :: items) =>
    "[" ++ newLine (level + 1) ++ write (level + 1) item ++ writeItems (level + 1) items ++
      newLine level ++ "]"
  | .record [] => "\x7b\x7d"
  | .record ((key, value) :: members) =>
    "\x7b" ++ newLine (level + 1) ++ quote key ++ ": " ++ write (level + 1) value ++
      writeMembers (level + 1) members ++ newLine level ++ "\x7d"

def writeItems (level : Nat) : List Document → String
  | [] => ""
  | item :: items => "," ++ newLine level ++ write level item ++ writeItems level items

def writeMembers (level : Nat) : List (String × Document) → String
  | [] => ""
  | (key, value) :: members =>
    "," ++ newLine level ++ quote key ++ ": " ++ write level value ++ writeMembers level members

end

end StepLang.Json
