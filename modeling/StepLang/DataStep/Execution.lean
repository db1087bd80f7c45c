import StepLang.DataStep.Input

/-! # Running a DATA step

The statements of a step run once for each observation. Variables that are not retained start
each observation missing; an observation that fails writes nothing, and the next one goes on.
-/

namespace StepLang.DataStep

/-- How the statements of an observation end. -/
inductive Flow where
  | next
  | delete
  | stop
  deriving DecidableEq, Repr

/-- What stays the same while a step runs. -/
structure Step where
  setting : Setting
  arrays : NameMap ArrayDef
  columns : List String
  explicitOutput : Bool

/-- What changes while the statements of an observation run: the variables, the outputs that were
asked for, and the log. -/
structure Frame where
  vars : Variables
  requested : List Bool
  log : Log

/-- A statement fails or ends in some way, and changes the frame in either case. -/
abbrev Exec := ExceptT Error (StateM Frame)

def elementVariable (arrays : NameMap ArrayDef) (array : String) (index : Int) :
    Except Error String :=
  match arrays.find? array with
  | none => .error (.undefinedArray array)
  | some a =>
    if index < 1 then .error (.subscriptOutOfRange array index a.vars.length)
    else
      match a.vars[index.toNat - 1]? with
      | some v => .ok v
      | none => .error (.subscriptOutOfRange array index a.vars.length)

namespace Step

/-- What expressions can refer to in the observation with number `n`. -/
def scope (step : Step) (n : Nat) (vs : Variables) : Scope where
  value name := if isCounter name then .ofNat n else vs.get name
  element array index := return vs.get (← elementVariable step.arrays array index)
  arraySize? array := (step.arrays.find? array).map (·.vars.length)
  macroText? := step.setting.macroText?
  today := step.setting.today

end Step

namespace Exec

def ofExcept : Except Error α → Exec α
  | .ok a => return a
  | .error e => throw e

/-- The value of an expression; macro variables that are not known are logged. -/
def eval (step : Step) (n : Nat) (e : Expression) : Exec Value := do
  let scope := step.scope n (← get).vars
  if e.hasMacro then
    modify fun f => { f with log := f.log ++ evaluationLog scope e }
  ofExcept (evaluate scope e)

def store (name : String) (value : Value) : Exec Unit :=
  modify fun f => { f with vars := f.vars.set name value }

/-- Assigns the value of an expression; it is evaluated before an index. -/
def assign (step : Step) (n : Nat) (target : Target) (value : Expression) : Exec Unit := do
  let v ← eval step n value
  match target with
  | .ref name => store name v
  | .element array index =>
    let size := (step.arrays.find? array).map (·.vars.length)
    let i ← ofExcept (subscript array size (← eval step n index))
    store (← ofExcept (elementVariable step.arrays array i)) v

def ask (step : Step) (requested : List Bool) (name : String) : List Bool :=
  match step.setting.outputIndex? name with
  | some i => requested.set i true
  | none => requested

/-- Asks for outputs by name, or for all of them. -/
def request (step : Step) (names : List String) : Exec Unit :=
  modify fun f =>
    if names.isEmpty then { f with requested := f.requested.map fun _ => true }
    else { f with requested := names.foldl (ask step) f.requested }

def inRange (increment stop current : Float) : Bool :=
  (0.0 < increment && current ≤ stop) || (increment < 0.0 && stop ≤ current)

/-- Repeats the body of a loop over a range, at most `passes` times more. The index may be changed
by the body; it is counted on from the value that the body leaves. -/
def repeatRange (index : String) (increment stop : Float) (limit : Nat) (body : Exec Flow) :
    (passes : Nat) → (current : Float) → Exec Flow
  | 0, current => do
    if inRange increment stop current then throw (.tooManyIterations limit)
    else
      store index (.number current)
      return .next
  | passes + 1, current => do
    if inRange increment stop current then
      store index (.number current)
      match ← body with
      | .next =>
        let reached := ((← get).vars.get index).toNumber
        repeatRange index increment stop limit body passes (reached + increment)
      | flow => return flow
    else
      store index (.number current)
      return .next

/-- The bounds of a loop over a range, none of which may be missing. -/
def checkBounds (index : String) (start stop increment : Float) : Except Error Unit :=
  if start.isNaN then .error (.invalidBounds index "start value is missing")
  else if stop.isNaN then .error (.invalidBounds index "end value is missing")
  else if increment.isNaN then .error (.invalidBounds index "increment value is missing")
  else if increment == 0.0 then .error (.zeroIncrement index)
  else .ok ()

/-- Repeats the body of a loop with a test, at most `passes` times more. -/
def repeatLoop (limit : Nat) (before after : Exec Bool) (body : Exec Flow) :
    (passes : Nat) → Exec Flow
  | 0 => throw (.tooManyIterations limit)
  | passes + 1 => do
    if ← before then
      match ← body with
      | .next => if ← after then repeatLoop limit before after body passes else return .next
      | flow => return flow
    else return .next

/-- A loop goes on: its condition holds, or does not hold if it is one to end with. -/
def holds (step : Step) (n : Nat) (condition : Expression) (expected : Bool) : Exec Bool :=
  return (← eval step n condition).isTrue == expected

mutual

/-- Runs a statement in the observation with number `n`. Declarations do nothing. -/
def runOne (step : Step) (n : Nat) : StepStatement → Exec Flow
  | .assign target value => do
    assign step n target value
    return .next
  | .branch condition consequence others => do
    if (← eval step n condition).isTrue then runOne step n consequence
    else runOthers step n others
  | .subset condition => do
    if (← eval step n condition).isTrue then return .next else return .delete
  | .iterate index start stop increment body => do
    let start := (← eval step n start).toNumber
    let stop := (← eval step n stop).toNumber
    let increment ←
      match increment with
      | some e => do pure (← eval step n e).toNumber
      | none => pure 1.0
    ofExcept (checkBounds index start stop increment)
    let limit := step.setting.loopLimit
    repeatRange index increment stop limit (runAll step n body) limit start
  | .loop (.whileTrue condition) body =>
    let limit := step.setting.loopLimit
    repeatLoop limit (holds step n condition true) (return true) (runAll step n body) limit
  | .loop (.untilTrue condition) body =>
    let limit := step.setting.loopLimit
    repeatLoop limit (return true) (holds step n condition false) (runAll step n body) limit
  | .block body => runAll step n body
  | .output names => do
    request step names
    return .next
  | .delete => return .delete
  | .stop => return .stop
  | _ => return .next

/-- Runs statements until one ends otherwise than by going on. -/
def runAll (step : Step) (n : Nat) : List StepStatement → Exec Flow
  | [] => return .next
  | s :: rest => do
    match ← runOne step n s with
    | .next => runAll step n rest
    | flow => return flow

/-- Runs the first further branch whose condition holds. -/
def runOthers (step : Step) (n : Nat) : Alternative → Exec Flow
  | .none => return .next
  | .otherwise s => runOne step n s
  | .elseIf condition consequence others => do
    if (← eval step n condition).isTrue then runOne step n consequence
    else runOthers step n others

end

end Exec

namespace Step

/-- The row of an observation: the values of the columns of the outputs. -/
def outputRow (step : Step) (vs : Variables) : Row :=
  step.columns.map fun c => (c, vs.get c)

/-- The variables at the start of an observation, with its row loaded. -/
def load (vs : Variables) (row : Option Row) : Variables :=
  (row.getD []).foldl (fun vs (column, value) => vs.set column value) vs.reset

def written (step : Step) (flow : Flow) (requested : List Bool) : List Bool :=
  match flow with
  | .delete => requested.map fun _ => false
  | .next => if step.explicitOutput then requested else requested.map fun _ => true
  | .stop => requested

/-- What a step has done so far: the rows of each output with the last one first, the errors with
the last one first, the variables, the log, and the number of observations. -/
structure Progress where
  rows : List (List Row)
  errors : List Error := []
  vars : Variables
  log : Log
  count : Nat := 0

/-- Runs one observation; true if the step goes on after it. -/
def observe (step : Step) (body : List StepStatement) (p : Progress) (row : Option Row) :
    Progress × Bool :=
  let n := p.count + 1
  let requested := step.setting.outputs.map fun _ => false
  let frame : Frame := ⟨load p.vars row, requested, p.log⟩
  let (result, frame) := (Exec.runAll step n body).run.run frame
  let p := { p with vars := frame.vars, log := frame.log, count := n }
  match result with
  | .error e =>
    let line : LogLine := ⟨.error, s!"ERROR: {e.message} (_N_={n})"⟩
    ({ p with errors := e :: p.errors, log := p.log.push line }, true)
  | .ok flow =>
    let row := step.outputRow frame.vars
    let write (wanted : Bool) (rows : List Row) := if wanted then row :: rows else rows
    ({ p with rows := List.zipWith write (step.written flow frame.requested) p.rows },
      flow != .stop)

/-- Runs observations until one stops the step. -/
def observeAll (step : Step) (body : List StepStatement) (p : Progress) :
    List (Option Row) → Progress
  | [] => p
  | row :: rows =>
    match step.observe body p row with
    | (p, true) => observeAll step body p rows
    | (p, false) => p

end Step

/-- What a step leaves: a data set for each output, the errors of observations, and the number of
observations that were run. -/
structure Outcome where
  outputs : List (DatasetRef × Dataset)
  errors : List Error
  iterations : Nat

/-- Reads a step before it runs: what it writes to the log, and its plan and its observations
unless it fails. -/
def compile (setting : Setting) (body : List StepStatement) :
    List LogLine × Except Error (Plan × List (Option Row)) :=
  match Plan.ofBody setting body with
  | .error e => ([], .error e)
  | .ok (plan, notes) =>
    match plan.rows with
    | (more, .error e) => (notes ++ more, .error e)
    | (more, .ok rows) => (notes ++ more, .ok (plan, observations setting.obsLimit rows))

def Plan.step (setting : Setting) (plan : Plan) : Step :=
  ⟨setting, plan.arrays, plan.columns, plan.explicitOutput⟩

def Plan.start (setting : Setting) (plan : Plan) (log : Log) : Step.Progress :=
  { rows := setting.outputs.map fun _ => [], vars := plan.vars, log }

/-- Runs the observations of a planned step: its log and its outcome. -/
def execute (setting : Setting) (body : List StepStatement) (plan : Plan) (log : Log)
    (rows : List (Option Row)) : Log × Outcome :=
  let step := plan.step setting
  let p := step.observeAll body (plan.start setting log) rows
  let datasets := List.zipWith (fun r rows =>
    (r, ({ name := r.name, columns := step.columns, rows := rows.reverse } : Dataset)))
    setting.outputs p.rows
  (p.log, ⟨datasets, p.errors.reverse, p.count⟩)

/-- Runs a DATA step: its log, and its outcome unless its plan or its input fails. -/
def runStep (setting : Setting) (body : List StepStatement) : List LogLine × Except Error Outcome :=
  match compile setting body with
  | (notes, .error e) => (notes, .error e)
  | (notes, .ok (plan, rows)) =>
    let (log, outcome) := execute setting body plan notes.toArray rows
    (log.toList, .ok outcome)

end StepLang.DataStep
