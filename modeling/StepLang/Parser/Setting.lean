import StepLang.Parser.StepStatement

/-! # Parsing settings

OPTIONS, LIBNAME, TITLE and `%LET` statements hold for the session. They may stand inside a step
and then take effect before it.
-/

namespace StepLang.Parser

def optionValue : Parser String := do
  let t ← advance
  match t.kind with
  | .text s => return s
  | .number _ => return t.lexeme
  | _ =>
    match t.name? with
    | some name => return name
    | none => throw (unexpected "option value" t)

def optionsStatement : Parser Statement := do
  let _ ← advance
  let settings ← untilSemicolon [] fun settings => do
    let name ← expectName "option name"
    let value ← if ← accept (.symbol .assign) then optionValue else pure ""
    return settings ++ [(Text.upper name, value)]
  expectSemicolon
  return .options settings

/-- Reads the options of a LIBNAME statement: whether the library is read-only. -/
def libnameOptions : Parser Bool :=
  untilSemicolon false fun _ => do
    let option ← expectName "LIBNAME option"
    expectSymbol .assign "="
    let value ← optionValue
    if Text.sameName option "access" then return Text.sameName value "readonly"
    else throw (.malformed (.unknownLibnameOption option) (← previous).pos)

def libnameStatement : Parser Statement := do
  let _ ← advance
  let libref ← expectName "libref"
  let engine ←
    match (← peek).name? with
    | some name => let _ ← advance; pure (some (Text.lower name))
    | none => pure none
  let t ← advance
  match t.kind with
  | .text path =>
    let readOnly ← libnameOptions
    expectSemicolon
    return .libname libref engine path readOnly
  | _ => throw (unexpected "quoted library path" t)

def titleStatement : Parser Statement := do
  let _ ← advance
  let text ←
    match (← peek).kind with
    | .text s => let _ ← advance; pure (some s)
    | _ => pure none
  expectSemicolon
  return .title text

/-- Reads a `%LET` statement. Its value is the texts of its tokens with blanks between them. -/
def macroLetStatement : Parser Statement := do
  let _ ← advance
  let name ← expectName "macro variable name"
  expectSymbol .assign "="
  let parts ← untilSemicolon [] fun parts => do
    if ← atEnd then throw .unexpectedEnd
    let t ← advance
    match t.kind with
    | .text s => return parts ++ [s]
    | _ => return parts ++ [t.lexeme]
  expectSemicolon
  return .macroLet name (" ".intercalate parts)

def setting? : Parser (Option Statement) := do
  if ← nextIsAssign then return none
  else
    let t ← peek
    match t.kind with
    | .keyword .OPTIONS => some <$> optionsStatement
    | .keyword .LIBNAME => some <$> libnameStatement
    | .keyword .TITLE => some <$> titleStatement
    | .macroWord .LET => some <$> macroLetStatement
    | .macroWord _ =>
      let word := String.ofList (t.lexeme.toList.dropWhile (· == '%'))
      throw (.unsupportedMacro (Text.upper word) t.pos.line)
    | _ => return none

/-- Reads the `RUN` or `QUIT` at the end of a step, if there is one. -/
def finishStep : Parser Unit := do
  match (← peek).kind with
  | .keyword .RUN | .keyword .QUIT =>
    let _ ← advance
    expectSemicolon
  | _ => return

end StepLang.Parser
