import StepLang.Text.CaseTable

/-! # Upper and lower case of texts

Full case mapping: a letter may become several, and a capital sigma at the end of a word becomes
the final form of the small one.
-/

namespace StepLang.Text

def CaseRange.map? (r : CaseRange) (n : Nat) : Option Nat :=
  if r.first ≤ n && n ≤ r.last && (n - r.first) % r.stride == 0 then some (n + r.delta).toNat
  else none

/-- The characters that replace `c` under the given tables. -/
def mapCase (ranges : List CaseRange) (sequences : List (Nat × List Nat)) (c : Char) :
    List Char :=
  match ranges.findSome? (·.map? c.toNat) with
  | some n => [Char.ofNat n]
  | none =>
    match sequences.lookup c.toNat with
    | some ns => ns.map Char.ofNat
    | none => [c]

def inRanges (ranges : List (Nat × Nat)) (c : Char) : Bool :=
  ranges.any fun (first, last) => first ≤ c.toNat && c.toNat ≤ last

/-- The first character that is not passed over is a letter with a case. -/
def meetsCased (cs : List Char) : Bool :=
  match cs.dropWhile (inRanges caseIgnorable) with
  | c :: _ => inRanges casedLetters c
  | [] => false

def toUpperCase (s : String) : String :=
  String.ofList (s.toList.flatMap fun c =>
    if c.toNat < 128 then [c.toUpper] else mapCase upperRanges upperSequences c)

/-- The lower case of a text behind the characters `before`, the nearest first. -/
def lowerFrom (before : List Char) : List Char → List Char
  | [] => []
  | c :: cs =>
    let mapped :=
      if c.toNat < 128 then [c.toLower]
      else if c = 'Σ' then [if meetsCased before && !meetsCased cs then 'ς' else 'σ']
      else mapCase lowerRanges lowerSequences c
    mapped ++ lowerFrom (c :: before) cs

def toLowerCase (s : String) : String :=
  String.ofList (lowerFrom [] s.toList)

end StepLang.Text
