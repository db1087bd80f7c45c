import StepLang.Parser.Expression

/-! # Parsing the statements of a DATA step

A statement that is malformed inside a DO group is reported and passed over; elsewhere it is left
to the reader of the enclosing step.
-/

namespace StepLang.Parser

/-- The step ends here: `RUN`, `QUIT`, `DATA` or `PROC` where a statement would begin. -/
def atStepBoundary : Parser Bool := do
  match (← peek).kind with
  | .keyword k =>
    return (k == .RUN || k == .QUIT || k.startsStep) && !(← nextIsAssign)
  | _ => return false

/-- The next tokens are a name and an opening bracket of an array element. -/
def nextIsSubscript (name : String) : Parser Bool := do
  match (← peekNext).kind with
  | .symbol .leftBracket | .symbol .leftBrace => return true
  | .symbol .leftParen => isArray name
  | _ => return false

def assignment : Parser StepStatement := do
  let name ← expectName "variable name"
  expectSymbol .assign "="
  let value ← expression
  expectSemicolon
  return .assign (.ref name) value

def elementAssignment : Parser StepStatement := do
  let array ← expectName "array name"
  let index ← subscript expression
  expectSymbol .assign "="
  let value ← expression
  expectSemicolon
  return .assign (.element array index) value

/-- Reads what follows the first branch of an IF statement. -/
def alternative (statement : Parser StepStatement) : Nat → Parser Alternative
  | 0 => throw .unexpectedEnd
  | bound + 1 => do
    if ← accept (.keyword .ELSEIF) then
      let condition ← expression
      expectKeyword .THEN "THEN"
      let consequence ← statement
      return .elseIf condition consequence (← alternative statement bound)
    else if ← accept (.keyword .ELSE) then return .otherwise (← statement)
    else return .none

def ifStatement (statement : Parser StepStatement) : Parser StepStatement := do
  let _ ← advance
  let condition ← expression
  if ← accept (.symbol .semicolon) then return .subset condition
  else
    expectKeyword .THEN "THEN"
    let consequence ← statement
    return .branch condition consequence
      (← alternative statement ((← get).ahead.length + 1))

def doBody (statement : Parser StepStatement) : Parser (List StepStatement) :=
  repeated [] fun body => do
    if ← accept (.keyword .END) then
      expectSemicolon
      return .done body
    else if (← atEnd) || (← atStepBoundary) then throw (unexpected "END" (← peek))
    else if ← accept (.symbol .semicolon) then return .again body
    else
      match ← recover statement with
      | some s => return .again (body ++ [s])
      | none => return .again body

def conditionLoop (statement : Parser StepStatement) (test : Expression → LoopTest) :
    Parser StepStatement := do
  let _ ← advance
  expectSymbol .leftParen "("
  let condition ← expression
  expectSymbol .rightParen ")"
  expectSemicolon
  return .loop (test condition) (← doBody statement)

def rangeLoop (statement : Parser StepStatement) : Parser StepStatement := do
  let index ← expectName "DO loop variable"
  expectSymbol .assign "="
  let start ← expression
  expectKeyword .TO "TO"
  let stop ← expression
  let increment ← if ← accept (.keyword .BY) then some <$> expression else pure none
  expectSemicolon
  return .iterate index start stop increment (← doBody statement)

def doStatement (statement : Parser StepStatement) : Parser StepStatement := do
  let _ ← advance
  if ← accept (.symbol .semicolon) then return .block (← doBody statement)
  else
    match (← peek).kind with
    | .keyword .WHILE => conditionLoop statement .whileTrue
    | .keyword .UNTIL => conditionLoop statement .untilTrue
    | _ => rangeLoop statement

def arraySize : Parser ArraySize := do
  if ← accept (.symbol .star) then return .star
  else
    let t ← advance
    match t.kind with
    | .number x =>
      if 1.0 ≤ x && Number.isWhole x then return .fixed (Number.toCount x)
      else throw (unexpected "array size" t)
    | _ => throw (unexpected "array size" t)

/-- Reads the mark of character elements, with a length that is passed over. -/
def elementKind : Parser Kind := do
  if ← accept (.symbol .dollar) then
    match (← peek).kind with
    | .number _ => let _ ← advance
    | _ => pure ()
    return .character
  else return .numeric

/-- The variables of an array: those listed, or numbered ones after its name. -/
def arrayVariables (pos : Position) (name : String) (size : ArraySize) (listed : List String) :
    Except Error (List String) :=
  match size with
  | .fixed n =>
    if listed.isEmpty then .ok ((List.range' 1 n).map fun i => name ++ toString i)
    else if n = listed.length then .ok listed
    else .error (.arraySize name n listed.length)
  | .star =>
    if listed.isEmpty then .error (.malformed (.arrayWithoutVariables name) pos) else .ok listed

/-- Reads an ARRAY statement and declares the array. -/
def arrayStatement : Parser StepStatement := do
  let pos := (← advance).pos
  let name ← expectName "array name"
  let opening ← advance
  match closing? opening.kind with
  | none => throw (unexpected "\x7b after array name" (← previous))
  | some close =>
    let size ← arraySize
    expectSymbol close "closing brace"
    let kind ← elementKind
    let vars ← liftExcept (arrayVariables pos name size (← nameList))
    modify fun s => { s with arrays := Text.upper name :: s.arrays }
    return .array name size kind vars
where
  liftExcept {α : Type} : Except Error α → Parser α
    | .ok a => return a
    | .error e => throw e

def literal? : Parser (Option Value) := do
  match (← peek).kind with
  | .number x => let _ ← advance; return some (.number x)
  | .text s => let _ ← advance; return some (.text s)
  | .symbol .dot => let _ ← advance; return some .missing
  | .symbol .minus =>
    let t ← peekNext
    match t.kind with
    | .number x =>
      let _ ← advance
      let _ ← advance
      return some (.number (-x))
    | _ => throw (unexpected "number" t)
  | _ => return none

/-- Reads a RETAIN statement. An initial value is that of the names since the one before it. -/
def retainStatement : Parser StepStatement := do
  let _ ← advance
  let (items, pending) ← untilSemicolon (([], []) : List RetainItem × List RetainItem)
    fun (items, pending) => do
      match ← literal? with
      | some initial =>
        return (items ++ pending.map fun item => { item with initial := some initial }, [])
      | none => return (items, pending ++ (← nameOrRange).map (⟨·, none⟩))
  expectSemicolon
  return .retain (items ++ pending)

/-- Reads a LENGTH statement. A length is that of the names since the one before it. -/
def lengthStatement : Parser StepStatement := do
  let _ ← advance
  let (items, pending) ← untilSemicolon (([], []) : List LengthItem × List String)
    fun (items, pending) => do
      let character ← accept (.symbol .dollar)
      match (← peek).kind with
      | .number x =>
        let t ← advance
        if pending.isEmpty then throw (.malformed .lengthWithoutVariable t.pos)
        else if x < 1.0 || !Number.isWhole x then
          throw (.malformed (.invalidLength t.lexeme) t.pos)
        else
          let kind : Kind := if character then .character else .numeric
          return (items ++ pending.map (⟨·, kind, Number.toCount x⟩), [])
      | _ => return (items, pending ++ (← nameOrRange))
  if pending.isEmpty then
    expectSemicolon
    return .length items
  else throw (unexpected "length value" (← peek))

/-- Marks the last field of a list as a character field. -/
def markCharacter : List InputField → Option (List InputField)
  | [] => none
  | [f] => some [{ f with kind := .character }]
  | f :: fs => (markCharacter fs).map (f :: ·)

def inputStatement : Parser StepStatement := do
  let _ ← advance
  let fields ← untilSemicolon [] fun fields => do
    if ← accept (.symbol .dollar) then
      match markCharacter fields with
      | some fields => return fields
      | none => throw (unexpected "variable name" (← previous))
    else return fields ++ [⟨← expectName "INPUT variable", .numeric⟩]
  expectSemicolon
  return .input fields

/-- Reads a DATALINES statement and the data behind it. -/
def dataLinesStatement : Parser StepStatement := do
  let _ ← advance
  expectSemicolon
  let t ← advance
  match t.kind with
  | .dataLines body =>
    expectSemicolon
    return .dataLines body
  | _ => throw (unexpected "data lines" t)

/-- Reads a statement that is its keyword and what a parser reads behind it. -/
def keywordStatement (rest : Parser StepStatement) : Parser StepStatement := do
  let _ ← advance
  rest

def statementBody (statement : Parser StepStatement) : Parser StepStatement := do
  let t ← peek
  match t.kind with
  | .symbol .semicolon => keywordStatement (return .block [])
  | .keyword .SET => keywordStatement (return .set (← datasetList))
  | .keyword .MERGE => keywordStatement (return .merge (← datasetList))
  | .keyword .BY => keywordStatement (return .groupBy (← byList))
  | .keyword .IF => ifStatement statement
  | .keyword .DO => doStatement statement
  | .keyword .ARRAY => arrayStatement
  | .keyword .DROP => keywordStatement (return .drop (← nameList))
  | .keyword .KEEP => keywordStatement (return .keep (← nameList))
  | .keyword .RETAIN => retainStatement
  | .keyword .LENGTH => lengthStatement
  | .keyword .INPUT => inputStatement
  | .keyword .DATALINES => dataLinesStatement
  | .keyword .OUTPUT => keywordStatement (return .output (← nameList))
  | .keyword .DELETE => keywordStatement do expectSemicolon; return .delete
  | .keyword .STOP => keywordStatement do expectSemicolon; return .stop
  | .endOfInput => throw .unexpectedEnd
  | _ => throw (.malformed (.misplacedStatement t.lexeme) t.pos)

/-- Reads a statement of a DATA step; the depth bounds the nesting of statements. -/
def statementUpTo : (depth : Nat) → Parser StepStatement
  | 0 => throw .unexpectedEnd
  | depth + 1 => do
    match (← peek).name? with
    | some name =>
      if ← nextIsAssign then assignment
      else if ← nextIsSubscript name then elementAssignment
      else statementBody (statementUpTo depth)
    | none => statementBody (statementUpTo depth)

def stepStatement : Parser StepStatement := do
  statementUpTo ((← get).ahead.length + 1)

end StepLang.Parser
