import StepLang.CommandLine.Console
import StepLang.CommandLine.Request
import StepLang.Text.Lines

/-! # The command line

A command runs a program file, or holds an interactive session when none is given. It ends with
code zero, or with one if it failed or its program had errors.
-/

namespace StepLang.CommandLine

/-- What a command wrote, and the code that it ended with. -/
structure Outcome where
  outputs : List Output
  exitCode : UInt32 := 0

namespace Outcome

def ofResult (text : String) : Outcome := ⟨[.result text], 0⟩

def failed (f : Failure) (before : List Output) : Outcome :=
  ⟨before ++ [.log f.message], 1⟩

end Outcome

def usageText : String :=
  "Usage: saslite [OPTIONS] [FILE]\n"

def argumentText : String :=
  "saslite - an interpreter for a SAS-like data step language with PROC SORT, MEANS, PRINT and " ++
  "FREQ\n\n" ++ usageText ++
  "\nArguments:\n" ++
  "  [FILE]  Program file; starts an interactive session when omitted\n" ++
  "\nOptions:\n" ++
  "  -c, --config <CONFIG>  JSON configuration file\n" ++
  "  -v, --verbose          Log debug detail to stderr\n" ++
  "  -h, --help             Print help\n" ++
  "  -V, --version          Print version\n"

def refuse (fault : UsageFault) : Outcome :=
  ⟨[.log s!"error: {fault.message}\n\n{usageText}\nFor more information, try '--help'.\n"], 2⟩

def readText (files : FileTree) (path : String) : Except Error String := do
  match Text.decode (← files.read path).toList with
  | .ok text => return text
  | .error _ => throw (.file path .notUtf8)

/-- The configuration of a file, or the defaults. -/
def configure (files : FileTree) : Option String → Except Failure Config
  | none => .ok {}
  | some path =>
    match readText files path >>= Config.ofJson with
    | .ok config => .ok config
    | .error e => .error ⟨"loading configuration " ++ path, e.message⟩

/-- Starts a session; its log is written at once. -/
def startSession (config : Config) (files : FileTree) (today : Int) :
    List Output × Except Failure Session :=
  let (result, s) := Session.start config files today
  let outputs := logOutput s.log
  match result with
  | .ok () => (outputs, .ok { s with log := #[] })
  | .error e => (outputs, .error ⟨"assigning libraries", e.message⟩)

/-- The cause of an error in one file, without its path. -/
def causeText : Error → String
  | .file _ fault => fault.message
  | e => e.message

def runProgram (s : Session) (path : String) : Outcome × Session :=
  match readText s.files path with
  | .error e => (.failed ⟨"reading " ++ path, causeText e⟩ [], s)
  | .ok source =>
    match s.run source with
    | (.error e, s) => (.failed ⟨"tokenizing " ++ path, e.message⟩ (logOutput s.log), s)
    | (.ok errors, s) =>
      (⟨logOutput s.log ++ [.result s.listing], if errors.isEmpty then 0 else 1⟩, s)

def runRequest (r : Request) (files : FileTree) (today : Int) (input : List String) : Outcome :=
  match configure files r.config with
  | .error f => .failed f []
  | .ok config =>
    match startSession config files today with
    | (outputs, .error f) => .failed f outputs
    | (outputs, .ok s) =>
      match r.program with
      | some path =>
        let outcome := (runProgram s path).1
        { outcome with outputs := outputs ++ outcome.outputs }
      | none =>
        let console : Console := { session := s }
        ⟨outputs ++ .result Console.greeting :: console.converse input, 0⟩

/-- Runs a command on files and the text of its input. -/
def run (arguments : List String) (files : FileTree) (today : Int) (input : String) : Outcome :=
  match read arguments with
  | .version => .ofResult (versionText ++ "\n")
  | .help => .ofResult argumentText
  | .refused fault => refuse fault
  | .run r => runRequest r files today (Text.wholeLines input)

end StepLang.CommandLine
