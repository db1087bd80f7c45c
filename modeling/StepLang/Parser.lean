import StepLang.Parser.Procedure

/-! # Parsing programs

A program is parsed statement by statement. A statement that is malformed is reported and passed
over to its semicolon, so that it costs only itself.
-/

namespace StepLang

namespace Parser

/-- Reads the statements of a DATA step to its end. The settings among them are kept apart. -/
def stepBody : Parser (List Statement × List StepStatement) :=
  repeated ([], []) fun (settings, body) => do
    if (← atEnd) || (← atStepBoundary) then return .done (settings, body)
    else
      match ← recover setting? with
      | none => return .again (settings, body)
      | some (some s) => return .again (settings ++ [s], body)
      | some none =>
        if ← accept (.symbol .semicolon) then return .again (settings, body)
        else
          match ← recover stepStatement with
          | some s => return .again (settings, body ++ [s])
          | none => return .again (settings, body)

def dataStep : Parser (List Statement) := do
  let _ ← advance
  let outputs ← untilSemicolon [] fun refs => return refs ++ [← datasetRef]
  expectSemicolon
  modify fun s => { s with arrays := [] }
  let (settings, body) ← stepBody
  finishStep
  let outputs := if outputs.isEmpty then [.work "DATA1"] else outputs
  return settings ++ [.dataStep outputs body]

/-- Reads a statement of a program, with the settings that take effect before it. -/
def programStatement : Parser (List Statement) := do
  let assigned ← nextIsAssign
  match (← peek).kind, assigned with
  | .symbol .semicolon, _ =>
    let _ ← advance
    return []
  | .keyword .DATA, false => dataStep
  | .keyword .PROC, false => procedure
  | .keyword .RUN, false | .keyword .QUIT, false =>
    let _ ← advance
    expectSemicolon
    return [.run]
  | _, _ =>
    match ← setting? with
    | some s => return [s]
    | none => return [.single (← stepStatement)]

def program : Parser (List Statement) :=
  repeated [] fun statements => do
    if ← atEnd then return .done statements
    else return .again (statements ++ (← recover programStatement).getD [])

end Parser

/-- A parsed program: its statements and the errors of those that were passed over. -/
structure Program where
  statements : List Statement
  errors : List Error

/-- Parses tokens; this never fails. -/
def Program.ofTokens (tokens : List Token) : Program :=
  let (result, s) := Parser.program.run.run (Parser.State.start tokens)
  ⟨result.toOption.getD [], s.errors⟩

/-- A `RUN` or `QUIT` with its semicolon stands among the tokens. -/
def hasStepEnd : List Token → Bool
  | t :: u :: rest =>
    ((t.kind == .keyword .RUN || t.kind == .keyword .QUIT) && u.kind == .symbol .semicolon)
      || hasStepEnd (u :: rest)
  | _ => false

/-- The tokens hold a complete statement: a step with its end, or else a semicolon. -/
def isComplete (tokens : List Token) : Bool :=
  let significant :=
    (tokens.filter (·.kind != .endOfInput)).dropWhile (·.kind == .symbol .semicolon)
  match significant with
  | [] => false
  | t :: _ =>
    if t.kind.startsStep then hasStepEnd significant
    else significant.any (·.kind == .symbol .semicolon)

end StepLang
