import StepLang.Error

/-! # Reading tokens

A parser reads tokens from the front of a list and keeps the errors it has passed over. The place
that it has reached is kept also when it fails.
-/

namespace StepLang

/-- Where parsing stands: the tokens ahead without the end of input, the end of input, the token
read last, the errors so far, and the arrays declared so far in upper case. -/
structure Parser.State where
  ahead : List Token
  eof : Token
  last : Token
  errors : List Error := []
  arrays : List String := []

/-- A parser fails with an error or gives a result, and moves on in either case. -/
abbrev Parser := ExceptT Error (StateM Parser.State)

namespace Parser

/-- The state before the first of the given tokens. Tokens behind an end of input are not read; if
there is none, the input ends where the last token starts. -/
def State.start (tokens : List Token) : State :=
  let isEnd (t : Token) := t.kind == .endOfInput
  let ahead := tokens.takeWhile (! isEnd ·)
  let eof :=
    match tokens.find? isEnd, tokens.getLast? with
    | some t, _ => t
    | none, some t => ⟨.endOfInput, "", t.pos⟩
    | none, none => ⟨.endOfInput, "", .start⟩
  { ahead, eof, last := ahead.headD eof }

def peek : Parser Token :=
  return (← get).ahead.headD (← get).eof

def peekNext : Parser Token :=
  return (← get).ahead.tail.headD (← get).eof

def previous : Parser Token :=
  return (← get).last

/-- Reads a token; the end of input is not passed. -/
def advance : Parser Token := do
  let s ← get
  match s.ahead with
  | [] => return s.eof
  | t :: rest =>
    set { s with ahead := rest, last := t }
    return t

def atEnd : Parser Bool :=
  return (← get).ahead.isEmpty

def check (kind : Token.Kind) : Parser Bool :=
  return (← peek).kind == kind

def checkSymbol (s : Symbol) : Parser Bool :=
  check (.symbol s)

def checkKeyword (k : Keyword) : Parser Bool :=
  check (.keyword k)

/-- Reads a token of a kind if one is next, and tells whether it was. -/
def accept (kind : Token.Kind) : Parser Bool := do
  if ← check kind then
    let _ ← advance
    return true
  else return false

def unexpected (expected : String) (t : Token) : Error :=
  if t.kind == .endOfInput then .unexpectedEnd else .unexpectedToken expected t.kind t.pos

def expectSymbol (s : Symbol) (expected : String) : Parser Unit := do
  unless ← accept (.symbol s) do throw (unexpected expected (← peek))

def expectKeyword (k : Keyword) (expected : String) : Parser Unit := do
  unless ← accept (.keyword k) do throw (unexpected expected (← peek))

def expectSemicolon : Parser Unit :=
  expectSymbol .semicolon ";"

def expectName (expected : String) : Parser String := do
  let t ← peek
  match t.name? with
  | some name =>
    let _ ← advance
    return name
  | none => throw (unexpected expected t)

def nextIsAssign : Parser Bool :=
  return (← peekNext).kind == .symbol .assign

def isArray (name : String) : Parser Bool :=
  return (← get).arrays.contains (Text.upper name)

def report (e : Error) : Parser Unit :=
  modify fun s => { s with errors := s.errors ++ [e] }

def attempt (p : Parser α) : Parser (Except Error α) :=
  ExceptT.mk (do return .ok (← p.run))

inductive Pass (α β : Type) where
  | again (state : α)
  | done (result : β)

def repeatUpTo (pass : α → Parser (Pass α β)) : Nat → α → Parser β
  | 0, _ => throw .unexpectedEnd
  | bound + 1, a => do
    match ← pass a with
    | .again a => repeatUpTo pass bound a
    | .done b => return b

/-- Repeats a pass that reads a token unless it is the last one. -/
def repeated (init : α) (pass : α → Parser (Pass α β)) : Parser β := do
  repeatUpTo pass ((← get).ahead.length + 1) init

/-- Reads items up to a semicolon, which is left. -/
def untilSemicolon (init : α) (item : α → Parser α) : Parser α :=
  repeated init fun a => do
    if ← checkSymbol .semicolon then return .done a else return .again (← item a)

/-- Passes over the rest of a statement and its semicolon. -/
def synchronize : Parser Unit :=
  modify fun s =>
    let skipped := s.ahead.takeWhile (·.kind != .symbol .semicolon)
    match s.ahead.drop skipped.length with
    | t :: rest => { s with ahead := rest, last := t }
    | [] => { s with ahead := [], last := s.ahead.getLastD s.last }

/-- Runs a parser; if it fails, reports the error and passes over the rest of the statement. -/
def recover (p : Parser α) : Parser (Option α) := do
  match ← attempt p with
  | .ok a => return some a
  | .error e =>
    report e
    synchronize
    return none

end Parser

end StepLang
