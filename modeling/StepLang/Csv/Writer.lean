/-! # Writing comma-separated values

A field is put between quotes if it holds a comma, a quote or a line end.
-/

namespace StepLang.Csv

def needsQuotes (s : String) : Bool :=
  s.toList.any fun c => c == ',' || c == '"' || c == '\r' || c == '\n'

def writeField (s : String) : String :=
  if needsQuotes s then
    "\"" ++ String.ofList (s.toList.flatMap fun c => if c = '"' then ['"', '"'] else [c]) ++ "\""
  else s

/-- A record as a line. A line that would be empty holds an empty field in quotes. -/
def writeRecord (fields : List String) : String :=
  let line := ",".intercalate (fields.map writeField)
  (if line.isEmpty then "\"\"" else line) ++ "\n"

def write (records : List (List String)) : String :=
  String.join (records.map writeRecord)

end StepLang.Csv
