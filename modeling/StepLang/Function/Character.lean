import StepLang.Text.CaseMap
import StepLang.Value

/-! # Character functions

Positions are counted from one in characters. A number stands for the text it is listed as.
-/

namespace StepLang.Function

/-- The characters of a text from a position on, at most `length` of them if one is given. A
position outside the text, or a length below one, gives the empty text. -/
def substring (s : String) (position : Float) (length : Option Float) : String :=
  let cs := s.toList
  if position.isNaN || position < 1.0 || cs.length < Number.toCount position then ""
  else
    let rest := cs.drop (Number.toCount position - 1)
    match length with
    | none => String.ofList rest
    | some n => if n.isNaN || n < 1.0 then "" else String.ofList (rest.take (Number.toCount n))

/-- The text with its leading blanks moved to the end as spaces. -/
def alignLeft (s : String) : String :=
  let body := Text.trimStart s
  body ++ String.ofList (List.replicate (s.length - body.length) ' ')

/-- The text with its trailing blanks moved to the front as spaces. -/
def alignRight (s : String) : String :=
  let body := Text.trimEnd s
  String.ofList (List.replicate (s.length - body.length) ' ') ++ body

/-- The length of a text without its trailing blanks, at least one. -/
def trimmedLength (s : String) : Nat :=
  max 1 (Text.trimEnd s).length

/-- The place of the first occurrence of an excerpt, counted from `n`. -/
def occurrence? (excerpt : List Char) : List Char → Nat → Option Nat
  | [], n => if excerpt.isEmpty then some n else none
  | c :: cs, n =>
    if excerpt.isPrefixOf (c :: cs) then some n else occurrence? excerpt cs (n + 1)

/-- The position of the first occurrence of an excerpt; zero if there is none, and for the empty
excerpt. -/
def index (s excerpt : String) : Nat :=
  if excerpt.isEmpty then 0 else (occurrence? excerpt.toList s.toList 1).getD 0

def without (s removed : String) : String :=
  String.ofList (s.toList.filter fun c => !removed.toList.contains c)

end StepLang.Function
