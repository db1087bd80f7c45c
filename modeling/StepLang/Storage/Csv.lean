import StepLang.Csv.Reader
import StepLang.Csv.Writer
import StepLang.Dataset

/-! # Data sets as comma-separated values

The header names the columns. A dollar sign behind a name marks a column of texts; an unmarked
column holds numbers if each of its cells is a number, a point alone or blank.
-/

namespace StepLang.Storage

/-- A column of a header: its name and whether it is marked as one of texts. -/
def headerColumn (header : String) : String × Bool :=
  let name := Text.trim header
  match name.toList.reverse with
  | '$' :: rest => (Text.trimEnd (String.ofList rest.reverse), true)
  | _ => (name, false)

def isNumeric (cell : String) : Bool :=
  let s := Text.trim cell
  s.isEmpty || s == "." || (Number.read? s).isSome

def cellValue (numeric : Bool) (cell : String) : Value :=
  if numeric then .number ((Number.read? (Text.trim cell)).getD Number.missing) else .text cell

/-- The data set of a header and records. The header names every column that a record fills. -/
def ofRecords (name : String) (header : List String) (records : List (List String)) : Dataset :=
  let columns := header.map headerColumn
  let kinds := columns.zipIdx.map fun ((column, marked), i) =>
    (column, !marked && records.all fun cells => isNumeric (cells.getD i ""))
  let cells (record : List String) := kinds.zipIdx.map fun ((column, numeric), i) =>
    (column, cellValue numeric (record.getD i ""))
  let d := Dataset.withColumns name (columns.map (·.1))
  { d with rows := records.map fun record => (d.addCells (cells record) []).2 }

def ofCsv (name : String) (bytes : List UInt8) : Except Error Dataset :=
  match Csv.read bytes with
  | .ok (header, records) => .ok (ofRecords name header records)
  | .error fault => .error (.codec fault)

def hasText (d : Dataset) (column : String) : Bool :=
  d.rows.any fun row =>
    match d.rowCell? row column with
    | some (.text _) => true
    | _ => false

/-- A cell as it is written: a missing number is a point, or nothing in a column of texts. -/
def cellText (character : Bool) : Value → String
  | .number x => if x.isNaN then (if character then "" else ".") else Number.toText x
  | .text s => s

def toCsv (d : Dataset) : String :=
  let kinds := d.columns.map (hasText d)
  let header := List.zipWith (fun column character => if character then column ++ "$" else column)
    d.columns kinds
  let record (row : Row) := List.zipWith cellText kinds (d.orderedValues row)
  Csv.write (header :: d.rows.map record)

end StepLang.Storage
