import StepLang.Dataset
import StepLang.Evaluation
import StepLang.NameMap
import StepLang.Syntax.Statement
import StepLang.Variables

/-! # The plan of a DATA step

Before a DATA step runs, its statements are read once for what they declare: variables in the
order of their appearance, arrays, kept and dropped variables, and where the rows come from.
Nothing is declared while the step runs.
-/

namespace StepLang.DataStep

/-- What a step needs to know of the session: its outputs, the data sets it can read, the macro
variables, the current day, and its limits. -/
structure Setting where
  outputs : List DatasetRef
  dataset : DatasetRef → Except Error Dataset
  macroText? : String → Option String
  today : Int
  loopLimit : Nat
  obsLimit : Option Nat

def Setting.outputIndex? (setting : Setting) (name : String) : Option Nat :=
  setting.outputs.findIdx? fun r => Text.sameName r.name name

/-- The variables that an array stands for, and their kind. -/
structure ArrayDef where
  vars : List String
  kind : Kind

/-- What the statements of a step declare. -/
structure Plan where
  vars : Variables := .empty
  arrays : NameMap ArrayDef := {}
  keep : List String := []
  drop : List String := []
  explicitOutput : Bool := false
  inputs : List (DatasetRef × Dataset) := []
  hasSet : Bool := false
  hasMerge : Bool := false
  keys : List ByVariable := []
  fields : List InputField := []
  dataLines : Option String := none

def isCharacterFunction (name : String) : Bool :=
  ["SUBSTR", "TRIM", "LEFT", "RIGHT", "UPCASE", "LOWCASE", "STRIP", "COMPRESS", "CAT",
    "CATS"].contains (Text.upper name)

def isCounter (name : String) : Bool :=
  Text.sameName name "_n_"

namespace Plan

/-- The kind that a variable takes from the expression assigned to it. -/
def inferKind (setting : Setting) (p : Plan) : Expression → Kind
  | .text _ => .character
  | .ref name =>
    match p.vars.find? name with
    | some v => v.kind
    | none => .numeric
  | .macroRef name =>
    match setting.macroText? name with
    | some text => if (Number.read? (Text.trim text)).isSome then .numeric else .character
    | none => .numeric
  | .binary .concat _ _ => .character
  | .call function _ => if isCharacterFunction function then .character else .numeric
  | .element array _ =>
    match p.arrays.find? array with
    | some a => a.kind
    | none => .numeric
  | _ => .numeric

def declareVariable (p : Plan) (name : String) (kind : Kind) : Plan :=
  { p with vars := p.vars.declare name kind }

/-- The kind of a column: that of its first value that is not missing, or else of its first
cell. -/
def columnKind (d : Dataset) (column : String) : Kind :=
  let present := (d.rows.filterMap (·.cell? column)).find? (! ·.isMissing)
  match present, d.get? 0 column with
  | some v, _ => v.kind
  | none, some v => v.kind
  | none, none => .numeric

def declareColumns (p : Plan) (d : Dataset) : Plan :=
  d.columns.foldl (fun p column => p.declareVariable column (columnKind d column)) p

def readInputs (setting : Setting) (p : Plan) : List DatasetRef → Except Error Plan
  | [] => .ok p
  | r :: rs => do
    let d ← setting.dataset r
    let p := p.declareColumns d
    readInputs setting { p with inputs := p.inputs ++ [(r, d)] } rs

def declareRetained (p : Plan) (item : RetainItem) : Plan :=
  let kind := item.initial.elim .numeric Value.kind
  let vars := (p.vars.declare item.name kind).retain item.name true
  { p with vars := item.initial.elim vars (vars.set item.name ·) }

def declareArray (p : Plan) (name : String) (kind : Kind) (vars : List String) : Plan :=
  let p := vars.foldl (fun p v => p.declareVariable v kind) p
  { p with arrays := p.arrays.insert name ⟨vars, kind⟩ }

/-- Checks that outputs named by a statement are outputs of the step. -/
def checkOutputs (setting : Setting) : List String → Except Error Unit
  | [] => .ok ()
  | name :: names =>
    if (setting.outputIndex? name).isSome then checkOutputs setting names
    else .error (.unsupportedStatement
      s!"OUTPUT {Text.upper name}: not named in the DATA statement")

mutual

/-- Adds what a statement declares, at any depth. -/
def declare (setting : Setting) (p : Plan) : StepStatement → Except Error Plan
  | .set refs => do
    let p ← p.readInputs setting refs
    return { p with hasSet := p.hasSet || !refs.isEmpty }
  | .merge refs => do
    let p ← p.readInputs setting refs
    return { p with hasMerge := p.hasMerge || !refs.isEmpty }
  | .groupBy keys => .ok { p with keys }
  | .input fields =>
    let p := fields.foldl (fun p f => p.declareVariable f.name f.kind) p
    .ok { p with fields := p.fields ++ fields }
  | .dataLines text => .ok { p with dataLines := some text }
  | .array name _ kind vars => .ok (p.declareArray name kind vars)
  | .retain items => .ok (items.foldl declareRetained p)
  | .length items =>
    let declareItem (vs : Variables) (i : LengthItem) :=
      (vs.declareLength i.name i.kind i.length).1
    .ok { p with vars := items.foldl declareItem p.vars }
  | .keep names => .ok { p with keep := p.keep ++ names }
  | .drop names => .ok { p with drop := p.drop ++ names }
  | .output names => do
    checkOutputs setting names
    return { p with explicitOutput := true }
  | .assign (.ref name) value =>
    .ok (if isCounter name then p else p.declareVariable name (p.inferKind setting value))
  | .branch _ consequence others => do
    declareOthers setting (← declare setting p consequence) others
  | .iterate index _ _ _ body => declareAll setting (p.declareVariable index .numeric) body
  | .loop _ body => declareAll setting p body
  | .block body => declareAll setting p body
  | _ => .ok p

def declareAll (setting : Setting) (p : Plan) : List StepStatement → Except Error Plan
  | [] => .ok p
  | s :: rest => do declareAll setting (← declare setting p s) rest

def declareOthers (setting : Setting) (p : Plan) : Alternative → Except Error Plan
  | .none => .ok p
  | .otherwise s => declare setting p s
  | .elseIf _ consequence others => do
    declareOthers setting (← declare setting p consequence) others

end

end Plan

mutual

/-- The variables that an expression reads, in the order of their appearance. -/
def references : Expression → List String
  | .ref name => [name]
  | .binary _ left right => references left ++ references right
  | .unary _ operand => references operand
  | .call function args => if Text.sameName function "dim" then [] else referencesAll args
  | .element _ index => references index
  | _ => []

def referencesAll : List Expression → List String
  | [] => []
  | e :: es => references e ++ referencesAll es

end

mutual

/-- The variables that a statement reads. The condition of a loop comes behind its body. -/
def statementReferences : StepStatement → List String
  | .assign (.ref _) value => references value
  | .assign (.element _ index) value => references index ++ references value
  | .branch condition consequence others =>
    references condition ++ statementReferences consequence ++ otherReferences others
  | .subset condition => references condition
  | .iterate _ start stop increment body =>
    references start ++ references stop ++ increment.elim [] references ++ bodyReferences body
  | .loop (.whileTrue condition) body => bodyReferences body ++ references condition
  | .loop (.untilTrue condition) body => bodyReferences body ++ references condition
  | .block body => bodyReferences body
  | _ => []

def bodyReferences : List StepStatement → List String
  | [] => []
  | s :: rest => statementReferences s ++ bodyReferences rest

def otherReferences : Alternative → List String
  | .none => []
  | .otherwise s => statementReferences s
  | .elseIf condition consequence others =>
    references condition ++ statementReferences consequence ++ otherReferences others

end

namespace Plan

/-- Declares a variable that is read and assigned nowhere, and tells so. -/
def declareReference (p : Plan × List LogLine) (name : String) : Plan × List LogLine :=
  let (plan, log) := p
  if isCounter name || (plan.arrays.find? name).isSome ||
      (plan.vars.find? name).isSome then p
  else (plan.declareVariable name .numeric,
    log ++ [⟨.warn, s!"NOTE: Variable {name} is uninitialized."⟩])

/-- The warnings for kept variables that are none. -/
def keepWarnings (p : Plan) : List LogLine :=
  (p.keep.filter fun name => (p.vars.find? name).isNone).map fun name =>
    ⟨.warn, s!"WARNING: The variable {name} in the KEEP list has never been referenced."⟩

/-- The plan of a step with every variable that its statements assign or read. -/
def ofBody (setting : Setting) (body : List StepStatement) :
    Except Error (Plan × List LogLine) := do
  let plan ← declareAll setting {} body
  let (plan, log) := (bodyReferences body).foldl declareReference (plan, [])
  return (plan, log ++ plan.keepWarnings)

/-- The columns of the outputs: the kept variables if any are named, else all but the dropped. -/
def columns (p : Plan) : List String :=
  let listed (names : List String) (v : String) := names.any fun n => Text.sameName n v
  (p.vars.entries.map (·.name)).filter fun v =>
    if p.keep.isEmpty then !listed p.drop v else listed p.keep v

end Plan

end StepLang.DataStep
