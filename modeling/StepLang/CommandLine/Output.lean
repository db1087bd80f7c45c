import StepLang.Log

/-! # Output

What a command writes: results to one stream, the log and failures to another.
-/

namespace StepLang.CommandLine

/-- Text for the stream of results or for the stream of the log. -/
inductive Output where
  | result (text : String)
  | log (text : String)
  deriving DecidableEq, Repr

namespace Output

def results (outputs : List Output) : String :=
  String.join <| outputs.map fun
    | result text => text
    | log _ => ""

def logs (outputs : List Output) : String :=
  String.join <| outputs.map fun
    | result _ => ""
    | log text => text

end Output

def hexadecimal (n : Nat) : String :=
  String.ofList (Nat.toDigits 16 n)

/-- The text of a character in the log. A character that a terminal could take for a command is
written as its code. -/
def shownChar (c : Char) : String :=
  let n := c.toNat
  if n == 0x1b || n == 0x7f then "\\x" ++ hexadecimal n
  else if n == 0x07 || n == 0x08 || n == 0x0c then "\\x0" ++ hexadecimal n
  else if 0x80 ≤ n && n ≤ 0x9f then "\\u\x7b" ++ hexadecimal n ++ "\x7d"
  else c.toString

def alignRight (width : Nat) (s : String) : String :=
  String.ofList (List.replicate (width - s.length) ' ') ++ s

def alignLeft (width : Nat) (s : String) : String :=
  s ++ String.ofList (List.replicate (width - s.length) ' ')

/-- The line of the log: its level, on the right of five places, and its text. -/
def logText (line : LogLine) : String :=
  alignRight 5 line.level.toText ++ " " ++ String.join (line.text.toList.map shownChar) ++ "\n"

def logOutput (log : Log) : List Output :=
  log.toList.map fun line => .log (logText line)

/-- A failure that ends a command: what was done when it arose, and its cause. -/
structure Failure where
  activity : String
  cause : String
  deriving DecidableEq, Repr

/-- The text of a failure; every line of the cause is indented. -/
def Failure.message (f : Failure) : String :=
  let cause := (f.cause.splitOn "\n").map ("    " ++ ·)
  s!"Error: {f.activity}\n\nCaused by:\n" ++ "\n".intercalate cause ++ "\n"

end StepLang.CommandLine
