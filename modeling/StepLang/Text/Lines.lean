/-! # Lines of text

A text is cut at its line feeds. The end of a line may also hold a carriage return.
-/

namespace StepLang.Text

def splitLines : List Char → List (List Char)
  | [] => [[]]
  | c :: cs =>
    if c = '\n' then [] :: splitLines cs
    else match splitLines cs with
      | [] => [[c]]
      | l :: ls => (c :: l) :: ls

/-- The line without a carriage return at its end. -/
def dropReturn (line : List Char) : List Char :=
  match line.reverse with
  | '\r' :: rest => rest.reverse
  | _ => line

/-- The lines of a text; there is none behind the last line feed if nothing stands there. -/
def lines (s : String) : List String :=
  let stretches := splitLines s.toList
  let ended :=
    match stretches.getLast? with
    | some [] => stretches.dropLast
    | _ => stretches
  ended.map fun line => String.ofList (dropReturn line)

/-- The lines of a text with their line feeds; the last one may have none. -/
def wholeLines (s : String) : List String :=
  let stretches := splitLines s.toList
  let ended := stretches.dropLast.map fun line => String.ofList (line ++ ['\n'])
  match stretches.getLast? with
  | some [] | none => ended
  | some rest => ended ++ [String.ofList rest]

end StepLang.Text
