import StepLang.FileTree
import StepLang.Storage.Csv
import StepLang.Storage.Json

/-! # Storage of data sets

A data set is kept in a file, in one of two formats.
-/

namespace StepLang

inductive Engine where
  | json
  | csv
  deriving DecidableEq, Repr, Inhabited

namespace Engine

/-- The name of a format, which is also the extension of its files. -/
def name : Engine → String
  | json => "json"
  | csv => "csv"

/-- The format with a name in any case of letters. -/
def ofName? (name : String) : Option Engine :=
  match Text.lower name with
  | "json" => some json
  | "csv" => some csv
  | _ => none

def encode (engine : Engine) (d : Dataset) : String :=
  match engine with
  | json => Storage.toJson d
  | csv => Storage.toCsv d

/-- The data set of the file at a path, named after the file if it has no name of its own. -/
def decode (engine : Engine) (path : String) (content : ByteArray) : Except Error Dataset :=
  match engine with
  | json =>
    match Text.decode content.toList with
    | .error _ => .error (.file path .notUtf8)
    | .ok text => do
      let d ← Storage.ofJson text
      return if d.name.isEmpty then { d with name := fileStem path } else d
  | csv => Storage.ofCsv (fileStem path) content.toList

def load (engine : Engine) (files : FileTree) (path : String) : Except Error Dataset := do
  engine.decode path (← files.read path)

def save (engine : Engine) (files : FileTree) (path : String) (d : Dataset) :
    Except Error FileTree :=
  files.write path (engine.encode d).toUTF8

end Engine

end StepLang
