import StepLang.CommandLine.Output
import StepLang.Session.Execution

/-! # The console

An interactive session takes input line by line. Lines are gathered until they hold a complete
statement; then what was gathered runs.
-/

namespace StepLang.CommandLine

def versionText : String := "saslite 0.1.0"

def helpText : String :=
  "Enter DATA steps, PROC steps and global statements. Input is run as soon as\n" ++
  "it forms a complete statement (steps run at RUN; or QUIT;).\n" ++
  "\n" ++
  "  data out; set in; ...; run;      DATA step\n" ++
  "  proc sort|means|print|freq ...   PROC step\n" ++
  "  libname lib 'dir';               assign a library\n" ++
  "  options obs=n;  title 'text';    global statements\n" ++
  "  help, ?                          this text\n" ++
  "  exit, quit                       leave\n"

def functionText : String :=
  String.join <| Function.all.map fun f => s!"  {alignLeft 10 f.name}{f.description}\n"

inductive Command where
  | leave
  | help
  | blank
  | input
  deriving DecidableEq, Repr

/-- The command of a line, in any case of letters. -/
def Command.ofLine (line : String) : Command :=
  match Text.lower (Text.trim line) with
  | "exit" | "quit" => leave
  | "help" | "?" => help
  | "" => blank
  | _ => input

/-- An interactive session and the input that is not yet complete. -/
structure Console where
  session : Session
  pending : String := ""

namespace Console

def greeting : String :=
  versionText ++ " - type help for a summary, exit to leave\n"

def prompt (c : Console) : String :=
  if c.pending.isEmpty then "saslite> " else "     ...> "

def errorOutput (e : Error) : Output :=
  .log ("ERROR: " ++ e.message ++ "\n")

def runTokens (s : Session) (tokens : List Token) : List Output × Console :=
  let program := Program.ofTokens tokens
  let (_, s) := s.execute program.statements
  (program.errors.map errorOutput ++ logOutput s.log ++ [.result s.listing],
    { session := { s with log := #[], listing := "" } })

/-- Adds a line to the input, and runs the input if it is complete. -/
def gather (c : Console) (line : String) : List Output × Console :=
  let input := c.pending ++ line
  match Token.scan input with
  | .error e => ([errorOutput e], { c with pending := "" })
  | .ok tokens =>
    if isComplete tokens then runTokens c.session tokens else ([], { c with pending := input })

/-- Takes a line; there is no console any more when the line ends it. -/
def feed (c : Console) (line : String) : List Output × Option Console :=
  match if c.pending.isEmpty then Command.ofLine line else .input with
  | .leave => ([], none)
  | .help => ([.result (helpText ++ "\nFunctions:\n" ++ functionText)], some c)
  | .blank => ([], some c)
  | .input =>
    let (outputs, c) := c.gather line
    (outputs, some c)

/-- Takes lines, each after a prompt, until one ends the console or there are no more. -/
def converse (c : Console) : List String → List Output
  | [] => [.result c.prompt]
  | line :: rest =>
    match c.feed line with
    | (outputs, none) => .result c.prompt :: outputs
    | (outputs, some next) => .result c.prompt :: outputs ++ converse next rest

end Console

end StepLang.CommandLine
