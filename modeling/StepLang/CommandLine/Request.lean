/-! # Requests

What the arguments of a command ask for. Options stand before, after or between the others, short
ones also together behind one hyphen; after a double hyphen there are none.
-/

namespace StepLang.CommandLine

/-- What to run: a program file or else an interactive session, under a configuration file or the
defaults. -/
structure Request where
  program : Option String := none
  config : Option String := none
  deriving DecidableEq, Repr

inductive UsageFault where
  | unexpectedArgument (argument : String)
  | noConfigPath
  | secondConfig
  deriving DecidableEq, Repr

def UsageFault.message : UsageFault → String
  | unexpectedArgument argument => s!"unexpected argument '{argument}' found"
  | noConfigPath => "a value is required for '--config <CONFIG>' but none was supplied"
  | secondConfig => "the argument '--config <CONFIG>' cannot be used multiple times"

inductive Reading where
  | run (request : Request)
  | version
  | help
  | refused (fault : UsageFault)
  deriving DecidableEq, Repr

namespace Request

def withConfig (r : Request) (path : String) : Except UsageFault Request :=
  match r.config with
  | none => .ok { r with config := some path }
  | some _ => .error .secondConfig

def withProgram (r : Request) (path : String) : Except UsageFault Request :=
  match r.program with
  | none => .ok { r with program := some path }
  | some _ => .error (.unexpectedArgument path)

end Request

inductive Argument where
  | path (text : String)
  | config (text : String)
  | configNext
  | verbose
  | version
  | help
  | endOfOptions
  | unknown
  deriving DecidableEq, Repr

namespace Argument

/-- The options behind a single hyphen; what follows the one for a configuration is its path. -/
def ofLetters : List Char → Argument
  | [] => verbose
  | 'v' :: rest => ofLetters rest
  | ['c'] => configNext
  | 'c' :: '=' :: text | 'c' :: text => config (String.ofList text)
  | 'V' :: _ => version
  | 'h' :: _ => help
  | _ => unknown

def ofText (argument : String) : Argument :=
  match argument with
  | "--" => endOfOptions
  | "--config" => configNext
  | "--verbose" => verbose
  | "--version" => version
  | "--help" => help
  | _ =>
    match argument.toList with
    | '-' :: '-' :: rest =>
      match (String.ofList rest).splitOn "=" with
      | "config" :: text@(_ :: _) => config ("=".intercalate text)
      | _ => unknown
    | '-' :: rest@(_ :: _) => ofLetters rest
    | _ => path argument

def isPath (argument : String) : Bool :=
  argument == "-" || !argument.startsWith "-"

end Argument

namespace Reading

def andThen (r : Except UsageFault Request) (next : Request → Reading) : Reading :=
  match r with
  | .ok r => next r
  | .error fault => refused fault

def ofPaths (r : Request) : List String → Reading
  | [] => run r
  | path :: rest => andThen (r.withProgram path) (ofPaths · rest)

def ofArguments (r : Request) : List String → Reading
  | [] => run r
  | argument :: rest =>
    match Argument.ofText argument with
    | .path text => andThen (r.withProgram text) (ofArguments · rest)
    | .config text => andThen (r.withConfig text) (ofArguments · rest)
    | .configNext =>
      match rest with
      | [] => refused .noConfigPath
      | text :: rest =>
        if Argument.isPath text then andThen (r.withConfig text) (ofArguments · rest)
        else refused .noConfigPath
    | .verbose => ofArguments r rest
    | .version => version
    | .help => help
    | .endOfOptions => ofPaths r rest
    | .unknown => refused (.unexpectedArgument argument)

end Reading

def read (arguments : List String) : Reading :=
  .ofArguments {} arguments

end StepLang.CommandLine
