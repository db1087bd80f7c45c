import StepLang.Parser.Setting

/-! # Parsing procedures

A PROC step is its options, its statements and `RUN`. Settings found inside it come before it.
-/

namespace StepLang.Parser

def statistic? : Token.Kind → Option Statistic
  | .keyword .N => some .n
  | .keyword .NMISS => some .nmiss
  | .keyword .SUM => some .sum
  | .keyword .MEAN => some .mean
  | .keyword .MIN => some .min
  | .keyword .MAX => some .max
  | _ => none

def datasetOption : Parser DatasetRef := do
  expectSymbol .assign "="
  datasetRef

def invalidOption (procedure : String) (t : Token) : Error :=
  .malformed (.invalidOption t.lexeme procedure) t.pos

def invalidStatement (procedure : String) : Parser α := do
  let t ← peek
  throw (.malformed (.invalidStatement t.lexeme procedure) t.pos)

/-- Reads the options of a procedure through the semicolon. An option is its first token and, if
an equals sign follows it, what stands behind that. -/
def procedureOptions (init : α) (option : α → Token → (assigned : Bool) → Parser α) :
    Parser α := do
  let request ← untilSemicolon init fun request => do
    let t ← advance
    option request t (← checkSymbol .assign)
  expectSemicolon
  return request

/-- Reads the statements of a procedure to the end of its step. The settings among them are kept
apart. -/
def procedureBody (init : α) (statement : α → Parser α) : Parser (α × List Statement) := do
  let result ← repeated (init, []) fun (request, settings) => do
    if (← atEnd) || (← atStepBoundary) then return .done (request, settings)
    else if ← accept (.symbol .semicolon) then return .again (request, settings)
    else
      let step : Parser (α × List Statement) := do
        match ← setting? with
        | some s => return (request, settings ++ [s])
        | none => return (← statement request, settings)
      return .again ((← recover step).getD (request, settings))
  finishStep
  return result

def sortProcedure : Parser (List Statement) := do
  let pos := (← previous).pos
  let request ← procedureOptions ({} : SortRequest) fun request t assigned => do
    match t.kind, assigned with
    | .keyword .DATA, true => return { request with data := some (← datasetOption) }
    | .keyword .OUT, true => return { request with out := some (← datasetOption) }
    | .keyword .NODUPKEY, _ => return { request with nodupkey := true }
    | .keyword .NODUPRECS, _ => return { request with noduprecs := true }
    | .keyword .DUPLICATES, _ => return { request with duplicates := true }
    | _, _ => throw (invalidOption "SORT" t)
  let (request, settings) ← procedureBody request fun request => do
    match (← peek).kind with
    | .keyword .BY =>
      let _ ← advance
      return { request with keys := ← byList }
    | .keyword .WHERE =>
      let _ ← advance
      let condition ← expression
      let _ ← recover expectSemicolon
      return { request with condition := some condition }
    | _ => invalidStatement "SORT"
  if request.keys.isEmpty then
    report (.malformed .sortWithoutBy pos)
    return settings
  else return settings ++ [.sort request]

def meansOutput : Parser MeansOutput := do
  let (out, columns) ← untilSemicolon ((none, []) : Option DatasetRef × _) fun (out, columns) => do
    let t ← advance
    if t.kind == .keyword .OUT && (← checkSymbol .assign) then
      return (some (← datasetOption), columns)
    else
      match statistic? t.kind with
      | none => throw (unexpected "OUT= or statistic" t)
      | some statistic =>
        expectSymbol .assign "="
        let names ← repeated [] fun names => do
          match (← peek).name? with
          | some name =>
            if ← nextIsAssign then return .done names
            else
              let _ ← advance
              return .again (names ++ [name])
          | none => return .done names
        if names.isEmpty then throw (unexpected "output column name" (← peek))
        else return (out, columns ++ [(statistic, names)])
  let pos := (← peek).pos
  expectSemicolon
  match out with
  | some out => return ⟨out, columns⟩
  | none => throw (.malformed .outputWithoutOut pos)

def meansProcedure : Parser (List Statement) := do
  let pos := (← previous).pos
  let request ← procedureOptions ({} : MeansRequest) fun request t assigned => do
    if t.kind == .keyword .DATA && assigned then
      return { request with data := some (← datasetOption) }
    else
      match statistic? t.kind with
      | none => throw (invalidOption "MEANS" t)
      | some statistic =>
        if request.statistics.contains statistic then return request
        else return { request with statistics := request.statistics ++ [statistic] }
  let (request, settings) ← procedureBody request fun request => do
    match (← peek).kind with
    | .keyword .VAR =>
      let _ ← advance
      return { request with vars := ← nameList }
    | .keyword .OUTPUT =>
      let _ ← advance
      return { request with output := some (← meansOutput) }
    | _ => invalidStatement "MEANS"
  if request.vars.isEmpty then
    report (.malformed .meansWithoutVar pos)
    return settings
  else return settings ++ [.means request]

def obsOption : Parser Nat := do
  let _ ← advance
  let t ← advance
  match t.kind with
  | .number x =>
    if 0.0 ≤ x then return Number.toCount x else throw (unexpected "observation count" t)
  | _ => throw (unexpected "observation count" t)

def printProcedure : Parser (List Statement) := do
  let request ← procedureOptions ({} : PrintRequest) fun request t assigned => do
    match t.kind, assigned with
    | .keyword .DATA, true => return { request with data := some (← datasetOption) }
    | .keyword .OBS, true => return { request with obs := some (← obsOption) }
    | .keyword .NOOBS, _ => return { request with noobs := true }
    | _, _ => throw (invalidOption "PRINT" t)
  let (request, settings) ← procedureBody request fun request => do
    match (← peek).kind with
    | .keyword .VAR =>
      let _ ← advance
      return { request with vars := ← nameList }
    | _ => invalidStatement "PRINT"
  return settings ++ [.print request]

def freqProcedure : Parser (List Statement) := do
  let request ← procedureOptions ({} : FreqRequest) fun request t assigned => do
    match t.kind, assigned with
    | .keyword .DATA, true => return { request with data := some (← datasetOption) }
    | _, _ => throw (invalidOption "FREQ" t)
  let (request, settings) ← procedureBody request fun request => do
    match (← peek).kind with
    | .keyword .TABLES =>
      let _ ← advance
      let names ← nameList
      return { request with tables := request.tables ++ names }
    | _ => invalidStatement "FREQ"
  return settings ++ [.freq request]

/-- Passes over a PROC SQL step through its `QUIT`, or over the rest of the input. -/
def skipSql : Parser Unit :=
  repeated () fun _ => do
    if ← atEnd then return .done ()
    else
      let t ← advance
      if t.kind == .keyword .QUIT && (← checkSymbol .semicolon) then
        let _ ← advance
        return .done ()
      else return .again ()

def skipStep : Parser Unit :=
  repeated () fun _ => do
    if (← atEnd) || (← atStepBoundary) then return .done ()
    else
      let _ ← advance
      return .again ()

def procedure : Parser (List Statement) := do
  let _ ← advance
  let t ← advance
  match t.kind with
  | .keyword .SORT => sortProcedure
  | .keyword .MEANS => meansProcedure
  | .keyword .PRINT => printProcedure
  | .keyword .FREQ => freqProcedure
  | .keyword .SQL =>
    skipSql
    return [.sql]
  | _ =>
    match t.name? with
    | none => throw (unexpected "procedure name" t)
    | some name =>
      skipStep
      finishStep
      return [.unknownProcedure (Text.upper name)]

end StepLang.Parser
