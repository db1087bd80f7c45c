import StepLang.DataStep.Execution
import StepLang.Parser
import StepLang.Session.Procedure
import StepLang.Token.Scanner

/-! # Running programs

The statements of a program run one after the other in a session. A statement that fails is
logged, and the next one runs.
-/

namespace StepLang

namespace Action

def stepSetting (s : Session) (outputs : List DatasetRef) : DataStep.Setting where
  outputs := outputs.filter (! ·.isNull)
  dataset := s.dataset
  macroText? := s.macros.find?
  today := s.today
  loopLimit := s.config.maxLoopIterations
  obsLimit := s.obsLimit

/-- Keeps the outputs of a DATA step, and lists them if the session is set so. -/
def keepOutputs : List (DatasetRef × Dataset) → Action Unit
  | [] => return
  | (r, d) :: rest => do
    noteMade r d.rows.length d.columns.length
    if (← get).config.autoPrint then list (Table.ofDataset d [] none false)
    storeDataset r d
    keepOutputs rest

/-- Runs a DATA step; gives the errors of its observations, and the error at which keeping its
outputs ended. -/
def dataStep (outputs : List DatasetRef) (body : List StepStatement) :
    Action (List Error) := do
  let (lines, result) := DataStep.runStep (stepSetting (← get) outputs) body
  log lines
  let outcome ← ofExcept result
  let kept ← ExceptT.mk (do return Except.ok (← (keepOutputs outcome.outputs).run))
  match kept with
  | .ok () => return outcome.errors
  | .error e =>
    log [⟨.error, "ERROR: " ++ e.message⟩]
    return outcome.errors ++ [e]

/-- Assigns the value of an expression to a variable outside steps. -/
def assign (name : String) (e : Expression) : Action Unit := do
  let scope := (← get).scope
  log (evaluationLog scope e)
  let v ← ofExcept (evaluate scope e)
  modify fun s => { s with vars := s.vars.insert name v }

def libname (libref : String) (engine : Option String) (path : String) (readOnly : Bool) :
    Action Unit := do
  let engine ←
    match engine with
    | none => pure (← get).config.defaultEngine
    | some name =>
      match Engine.ofName? name with
      | some e => pure e
      | none => throw (.unsupportedStatement s!"LIBNAME engine {name}")
  assignLibrary libref path engine (if readOnly then .readOnly else .readWrite)

def single : StepStatement → Action Unit
  | .assign (.ref name) value => assign name value
  | .assign (.element array _) _ => throw (.undefinedArray array)
  | s => throw (.unsupportedStatement s!"{s.keyword} is only valid inside a DATA step")

/-- Runs a statement of a program; gives the errors that did not end it. -/
def statement : Statement → Action (List Error)
  | .dataStep outputs body => dataStep outputs body
  | .single s => do single s; return []
  | .options settings => do
    modify fun s => { s with options := settings.foldl (fun o (n, v) => o.insert n v) s.options }
    return []
  | .libname libref engine path readOnly => do libname libref engine path readOnly; return []
  | .title text => do
    modify fun s => { s with title := text }
    return []
  | .macroLet name value => do
    modify fun s => { s with macros := s.macros.insert name (Text.trim value) }
    return []
  | .sort request => do sort request; return []
  | .means request => do means request; return []
  | .print request => do print request; return []
  | .freq request => do freq request; return []
  | .sql => throw (.notImplemented "PROC SQL")
  | .unknownProcedure name => throw (.unsupportedProcedure name)
  | .run => return []

end Action

namespace Session

def logError (s : Session) (e : Error) : Session :=
  { s with log := s.log.push ⟨.error, "ERROR: " ++ e.message⟩ }

def execute (s : Session) : List Statement → List Error × Session
  | [] => ([], s)
  | statement :: rest =>
    match (Action.statement statement).run.run s with
    | (.ok errors, s) =>
      let (more, s) := execute s rest
      (errors ++ more, s)
    | (.error e, s) =>
      let (more, s) := execute (s.logError e) rest
      (e :: more, s)

/-- Runs a program text; gives its errors, unless it cannot be cut into tokens. -/
def run (s : Session) (source : String) : Except Error (List Error) × Session :=
  match Token.scan source with
  | .error e => (.error e, s)
  | .ok tokens =>
    let program := Program.ofTokens tokens
    let (errors, s) := (program.errors.foldl logError s).execute program.statements
    (.ok (program.errors ++ errors), s)

def start (config : Config) (files : FileTree) (today : Int) : Except Error Unit × Session :=
  let assign (l : LibraryConfig) : Action Unit :=
    Action.assignLibrary l.name l.path (l.engine.getD config.defaultEngine)
      (if l.readOnly then .readOnly else .readWrite)
  let options : NameMap String :=
    match config.obsLimit with
    | some n => NameMap.insert {} "OBS" (toString n)
    | none => {}
  let (result, s) := (config.libraries.forM assign).run.run { files, today }
  (result, { s with config, options })

end Session

end StepLang
