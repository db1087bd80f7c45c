/-! # The log

What a run tells about itself, line by line.
-/

namespace StepLang

inductive LogLevel where
  | info
  | warn
  | error
  deriving DecidableEq, Repr

def LogLevel.toText : LogLevel → String
  | info => "INFO"
  | warn => "WARN"
  | error => "ERROR"

structure LogLine where
  level : LogLevel
  text : String
  deriving DecidableEq, Repr

/-- The lines in the order in which they were written. -/
abbrev Log := Array LogLine

end StepLang
