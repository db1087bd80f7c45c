import StepLang.Number.Reading
import StepLang.Parser.Cursor
import StepLang.Syntax.Statement

/-! # Lists of names

Data set names, lists of variables and numbered ranges such as `x1-x3`.
-/

namespace StepLang.Parser

/-- A name and the number at its end; a number that is too large for a count is none. -/
def splitNumbered? (name : String) : Option (String × Nat) :=
  let digits := (name.toList.reverse.takeWhile Char.isDigit).reverse
  let stem := name.toList.take (name.length - digits.length)
  if digits.isEmpty || stem.isEmpty then none
  else (Number.readCount? (String.ofList digits)).map (String.ofList stem, ·)

/-- The names of a numbered range, with the letters of its first name. -/
def numberedRange? (first last : String) : Option (List String) :=
  match splitNumbered? first, splitNumbered? last with
  | some (stem, low), some (stem', high) =>
    if Text.sameName stem stem' && low ≤ high then
      some ((List.range' low (high + 1 - low)).map fun i => stem ++ toString i)
    else none
  | _, _ => none

def datasetRef : Parser DatasetRef := do
  let first ← expectName "dataset name"
  if ← accept (.symbol .dot) then
    return ⟨some first, ← expectName "dataset name"⟩
  else return .work first

def datasetList : Parser (List DatasetRef) := do
  let refs ← untilSemicolon [] fun refs => return refs ++ [← datasetRef]
  expectSemicolon
  if refs.isEmpty then throw (unexpected "dataset name" (← previous)) else return refs

def byList : Parser (List ByVariable) := do
  let (keys, _) ← untilSemicolon ([], false) fun (keys, descending) => do
    if (← checkKeyword .DESCENDING) && (← peekNext).name?.isSome then
      let _ ← advance
      return (keys, true)
    else return (keys ++ [⟨← expectName "BY variable", descending⟩], false)
  expectSemicolon
  if keys.isEmpty then throw (unexpected "BY variable" (← previous)) else return keys

def nameOrRange : Parser (List String) := do
  let first ← expectName "variable name"
  if (← checkSymbol .minus) && (← peekNext).name?.isSome then
    let _ ← advance
    let pos := (← peek).pos
    let last ← expectName "variable name"
    match numberedRange? first last with
    | some names => return names
    | none => throw (.malformed (.invalidRange first last) pos)
  else return [first]

def nameList : Parser (List String) := do
  let names ← untilSemicolon [] fun names => return names ++ (← nameOrRange)
  expectSemicolon
  return names

end StepLang.Parser
