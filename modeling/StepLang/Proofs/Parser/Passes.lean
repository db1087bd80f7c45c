import StepLang.Proofs.Parser.Printing
import StepLang.Proofs.Parser.Programs

/-! # The loops of the parsers

Every loop of a parser by its pass. A list that ends at a semicolon has a pass for each of its
items; the other loops have passes of their own.
-/

namespace StepLang.Parser

variable {α : Type}

/-! ### Lists up to a semicolon -/

def listPass (item : α → Parser α) (a : α) : Parser (Pass α α) := do
  if ← checkSymbol .semicolon then return .done a else return .again (← item a)

def datasetItem (refs : List DatasetRef) : Parser (List DatasetRef) :=
  return refs ++ [← datasetRef]

theorem datasetList_eq : datasetList = (do
    let refs ← repeated [] (listPass datasetItem)
    expectSemicolon
    if refs.isEmpty then throw (unexpected "dataset name" (← previous)) else return refs) := rfl

theorem stepHead_eq : stepHead = (do
    let _ ← advance
    let outputs ← repeated [] (listPass datasetItem)
    expectSemicolon
    return outputs) := rfl

/-- Reads a variable to order by, or the mark of a descending order before one. -/
def byItem (read : List ByVariable × Bool) : Parser (List ByVariable × Bool) := do
  if (← checkKeyword .DESCENDING) && (← peekNext).name?.isSome then
    let _ ← advance
    return (read.1, true)
  else return (read.1 ++ [⟨← expectName "BY variable", read.2⟩], false)

theorem byList_eq : byList = (do
    let (keys, _) ← repeated ([], false) (listPass byItem)
    expectSemicolon
    if keys.isEmpty then throw (unexpected "BY variable" (← previous)) else return keys) := rfl

def nameItem (names : List String) : Parser (List String) :=
  return names ++ (← nameOrRange)

theorem nameList_eq : nameList = (do
    let names ← repeated [] (listPass nameItem)
    expectSemicolon
    return names) := rfl

/-- Reads a name of a RETAIN statement, or the initial value of those before it. -/
def retainItem (read : List RetainItem × List RetainItem) :
    Parser (List RetainItem × List RetainItem) := do
  match ← literal? with
  | some initial =>
    return (read.1 ++ read.2.map fun item => { item with initial := some initial }, [])
  | none => return (read.1, read.2 ++ (← nameOrRange).map (⟨·, none⟩))

theorem retainStatement_eq : retainStatement = (do
    let _ ← advance
    let (items, pending) ← repeated ([], []) (listPass retainItem)
    expectSemicolon
    return .retain (items ++ pending)) := rfl

/-- Reads a name of a LENGTH statement, or the length of those before it. -/
def lengthItem (read : List LengthItem × List String) :
    Parser (List LengthItem × List String) := do
  let character ← accept (.symbol .dollar)
  match (← peek).kind with
  | .number x =>
    let t ← advance
    if read.2.isEmpty then throw (.malformed .lengthWithoutVariable t.pos)
    else if x < 1.0 || !Number.isWhole x then
      throw (.malformed (.invalidLength t.lexeme) t.pos)
    else
      let kind : Kind := if character then .character else .numeric
      return (read.1 ++ read.2.map (⟨·, kind, Number.toCount x⟩), [])
  | _ => return (read.1, read.2 ++ (← nameOrRange))

theorem lengthStatement_eq : lengthStatement = (do
    let _ ← advance
    let (items, pending) ← repeated ([], []) (listPass lengthItem)
    if pending.isEmpty then
      expectSemicolon
      return .length items
    else throw (unexpected "length value" (← peek))) := rfl

/-- Reads a name of an INPUT statement, or the mark of a character field behind one. -/
def inputItem (fields : List InputField) : Parser (List InputField) := do
  if ← accept (.symbol .dollar) then
    match markCharacter fields with
    | some fields => return fields
    | none => throw (unexpected "variable name" (← previous))
  else return fields ++ [⟨← expectName "INPUT variable", .numeric⟩]

theorem inputStatement_eq : inputStatement = (do
    let _ ← advance
    let fields ← repeated [] (listPass inputItem)
    expectSemicolon
    return .input fields) := rfl

def optionItem (settings : List (String × String)) : Parser (List (String × String)) := do
  let name ← expectName "option name"
  let value ← if ← accept (.symbol .assign) then optionValue else pure ""
  return settings ++ [(Text.upper name, value)]

theorem optionsStatement_eq : optionsStatement = (do
    let _ ← advance
    let settings ← repeated [] (listPass optionItem)
    expectSemicolon
    return .options settings) := rfl

def libnameItem (_ : Bool) : Parser Bool := do
  let option ← expectName "LIBNAME option"
  expectSymbol .assign "="
  let value ← optionValue
  if Text.sameName option "access" then return Text.sameName value "readonly"
  else throw (.malformed (.unknownLibnameOption option) (← previous).pos)

theorem libnameOptions_eq : libnameOptions = repeated false (listPass libnameItem) := rfl

def macroItem (parts : List String) : Parser (List String) := do
  if ← atEnd then throw .unexpectedEnd
  let t ← advance
  match t.kind with
  | .text s => return parts ++ [s]
  | _ => return parts ++ [t.lexeme]

theorem macroLetStatement_eq : macroLetStatement = (do
    let _ ← advance
    let name ← expectName "macro variable name"
    expectSymbol .assign "="
    let parts ← repeated [] (listPass macroItem)
    expectSemicolon
    return .macroLet name (" ".intercalate parts)) := rfl

def procedureItem (option : α → Token → Bool → Parser α) (request : α) : Parser α := do
  let t ← advance
  option request t (← checkSymbol .assign)

theorem procedureOptions_eq (init : α) (option : α → Token → Bool → Parser α) :
    procedureOptions init option = (do
      let request ← repeated init (listPass (procedureItem option))
      expectSemicolon
      return request) := rfl

/-! ### Expressions -/

def variablePass (names : List String) : Parser (Pass (List String) (List String)) := do
  if ← accept (.symbol .rightParen) then return .done names
  else
    let first ← expectName "variable name"
    if ← accept (.symbol .minus) then
      let last ← expectName "variable name"
      return .again (names ++ expandRange first last)
    else return .again (names ++ [first])

theorem variableList_eq : variableList = (do
    let _ ← advance
    let names ← repeated [] variablePass
    return names.map .ref) := rfl

theorem arguments_eq (p : Parser Expression) : arguments p = (do
    if ← accept (.symbol .rightParen) then return []
    else if ← atVariableList then variableList
    else repeated [] (argumentPass p)) := rfl

theorem operation_eq (depth strength : Nat) : operation (depth + 1) strength = (do
    let first ← unary (operation depth 1) ((← get).ahead.length + 1)
    repeated first (operationPass depth strength)) := rfl

/-! ### Groups, procedures and steps -/

def doPass (statement : Parser StepStatement) (body : List StepStatement) :
    Parser (Pass (List StepStatement) (List StepStatement)) := do
  if ← accept (.keyword .END) then
    expectSemicolon
    return .done body
  else if (← atEnd) || (← atStepBoundary) then throw (unexpected "END" (← peek))
  else if ← accept (.symbol .semicolon) then return .again body
  else
    match ← recover statement with
    | some s => return .again (body ++ [s])
    | none => return .again body

theorem doBody_eq (statement : Parser StepStatement) :
    doBody statement = repeated [] (doPass statement) := rfl

def procedureStatement (statement : α → Parser α) (read : α × List Statement) :
    Parser (α × List Statement) := do
  match ← setting? with
  | some s => return (read.1, read.2 ++ [s])
  | none => return (← statement read.1, read.2)

def procedurePass (statement : α → Parser α) (read : α × List Statement) :
    Parser (Pass (α × List Statement) (α × List Statement)) := do
  if (← atEnd) || (← atStepBoundary) then return .done read
  else if ← accept (.symbol .semicolon) then return .again read
  else return .again ((← recover (procedureStatement statement read)).getD read)

theorem procedureBody_eq (init : α) (statement : α → Parser α) :
    procedureBody init statement = (do
      let result ← repeated (init, []) (procedurePass statement)
      finishStep
      return result) := rfl

def sortOption (request : SortRequest) (t : Token) (assigned : Bool) : Parser SortRequest := do
  match t.kind, assigned with
  | .keyword .DATA, true => return { request with data := some (← datasetOption) }
  | .keyword .OUT, true => return { request with out := some (← datasetOption) }
  | .keyword .NODUPKEY, _ => return { request with nodupkey := true }
  | .keyword .NODUPRECS, _ => return { request with noduprecs := true }
  | .keyword .DUPLICATES, _ => return { request with duplicates := true }
  | _, _ => throw (invalidOption "SORT" t)

def sortStatement (request : SortRequest) : Parser SortRequest := do
  match (← peek).kind with
  | .keyword .BY =>
    let _ ← advance
    return { request with keys := ← byList }
  | .keyword .WHERE =>
    let _ ← advance
    let condition ← expression
    let _ ← recover expectSemicolon
    return { request with condition := some condition }
  | _ => invalidStatement "SORT"

theorem sortProcedure_eq : sortProcedure = (do
    let pos := (← previous).pos
    let request ← procedureOptions {} sortOption
    let (request, settings) ← procedureBody request sortStatement
    if request.keys.isEmpty then
      report (.malformed .sortWithoutBy pos)
      return settings
    else return settings ++ [.sort request]) := rfl

def columnPass (names : List String) : Parser (Pass (List String) (List String)) := do
  match (← peek).name? with
  | some name =>
    if ← nextIsAssign then return .done names
    else
      let _ ← advance
      return .again (names ++ [name])
  | none => return .done names

/-- Reads the data set of an OUTPUT statement, or a statistic and the names of its columns. -/
def meansItem (read : Option DatasetRef × List (Statistic × List String)) :
    Parser (Option DatasetRef × List (Statistic × List String)) := do
  let t ← advance
  if t.kind == .keyword .OUT && (← checkSymbol .assign) then
    return (some (← datasetOption), read.2)
  else
    match statistic? t.kind with
    | none => throw (unexpected "OUT= or statistic" t)
    | some statistic =>
      expectSymbol .assign "="
      let names ← repeated [] columnPass
      if names.isEmpty then throw (unexpected "output column name" (← peek))
      else return (read.1, read.2 ++ [(statistic, names)])

theorem meansOutput_eq : meansOutput = (do
    let (out, columns) ← repeated (none, []) (listPass meansItem)
    let pos := (← peek).pos
    expectSemicolon
    match out with
    | some out => return ⟨out, columns⟩
    | none => throw (.malformed .outputWithoutOut pos)) := rfl

def meansOption (request : MeansRequest) (t : Token) (assigned : Bool) : Parser MeansRequest := do
  if t.kind == .keyword .DATA && assigned then
    return { request with data := some (← datasetOption) }
  else
    match statistic? t.kind with
    | none => throw (invalidOption "MEANS" t)
    | some statistic =>
      if request.statistics.contains statistic then return request
      else return { request with statistics := request.statistics ++ [statistic] }

def meansStatement (request : MeansRequest) : Parser MeansRequest := do
  match (← peek).kind with
  | .keyword .VAR =>
    let _ ← advance
    return { request with vars := ← nameList }
  | .keyword .OUTPUT =>
    let _ ← advance
    return { request with output := some (← meansOutput) }
  | _ => invalidStatement "MEANS"

theorem meansProcedure_eq : meansProcedure = (do
    let pos := (← previous).pos
    let request ← procedureOptions {} meansOption
    let (request, settings) ← procedureBody request meansStatement
    if request.vars.isEmpty then
      report (.malformed .meansWithoutVar pos)
      return settings
    else return settings ++ [.means request]) := rfl

def printOption (request : PrintRequest) (t : Token) (assigned : Bool) : Parser PrintRequest := do
  match t.kind, assigned with
  | .keyword .DATA, true => return { request with data := some (← datasetOption) }
  | .keyword .OBS, true => return { request with obs := some (← obsOption) }
  | .keyword .NOOBS, _ => return { request with noobs := true }
  | _, _ => throw (invalidOption "PRINT" t)

def printStatement (request : PrintRequest) : Parser PrintRequest := do
  match (← peek).kind with
  | .keyword .VAR =>
    let _ ← advance
    return { request with vars := ← nameList }
  | _ => invalidStatement "PRINT"

theorem printProcedure_eq : printProcedure = (do
    let request ← procedureOptions {} printOption
    let (request, settings) ← procedureBody request printStatement
    return settings ++ [.print request]) := rfl

def freqOption (request : FreqRequest) (t : Token) (assigned : Bool) : Parser FreqRequest := do
  match t.kind, assigned with
  | .keyword .DATA, true => return { request with data := some (← datasetOption) }
  | _, _ => throw (invalidOption "FREQ" t)

def freqStatement (request : FreqRequest) : Parser FreqRequest := do
  match (← peek).kind with
  | .keyword .TABLES =>
    let _ ← advance
    let names ← nameList
    return { request with tables := request.tables ++ names }
  | _ => invalidStatement "FREQ"

theorem freqProcedure_eq : freqProcedure = (do
    let request ← procedureOptions {} freqOption
    let (request, settings) ← procedureBody request freqStatement
    return settings ++ [.freq request]) := rfl

def sqlPass (_ : Unit) : Parser (Pass Unit Unit) := do
  if ← atEnd then return .done ()
  else
    let t ← advance
    if t.kind == .keyword .QUIT && (← checkSymbol .semicolon) then
      let _ ← advance
      return .done ()
    else return .again ()

theorem skipSql_eq : skipSql = repeated () sqlPass := rfl

def skipPass (_ : Unit) : Parser (Pass Unit Unit) := do
  if (← atEnd) || (← atStepBoundary) then return .done ()
  else
    let _ ← advance
    return .again ()

theorem skipStep_eq : skipStep = repeated () skipPass := rfl

def stepPass (read : List Statement × List StepStatement) :
    Parser (Pass (List Statement × List StepStatement) (List Statement × List StepStatement)) := do
  if (← atEnd) || (← atStepBoundary) then return .done read
  else
    match ← recover setting? with
    | none => return .again read
    | some (some s) => return .again (read.1 ++ [s], read.2)
    | some none =>
      if ← accept (.symbol .semicolon) then return .again read
      else
        match ← recover stepStatement with
        | some s => return .again (read.1, read.2 ++ [s])
        | none => return .again read

theorem stepBody_eq : stepBody = repeated ([], []) stepPass := rfl

theorem program_eq : program = repeated [] programPass := rfl

end StepLang.Parser
