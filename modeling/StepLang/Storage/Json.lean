import StepLang.Dataset
import StepLang.Error
import StepLang.Json.Reader
import StepLang.Json.Writer

/-! # Data sets as JSON documents

A data set is a record of its name, its columns and its rows. A missing number is written as
`null`.
-/

namespace StepLang.Storage

open Json

/-- A cell: a number, a text, or `null` for the missing number. -/
def cellOf? : Document → Option Value
  | .null => some .missing
  | .integer n => some (.number (Float.ofInt n))
  | .number x => if x.isFinite then some (.number x) else none
  | .text s => some (.text s)
  | _ => none

/-- A row; of cells with one name the last one counts. -/
def rowOf? : Document → Option Row
  | .record members =>
    members.foldlM (fun (row : Row) (column, d) => return row.insert column (← cellOf? d)) []
  | _ => none

def textOf? : Document → Option String
  | .text s => some s
  | _ => none

def listOf? (f : Document → Option α) : Document → Option (List α)
  | .list items => items.mapM f
  | _ => none

/-- The member with a key, if there is one; none if there are more. -/
def member? (members : List (String × Document)) (key : String) : Option (Option Document) :=
  match members.filter fun (k, _) => k == key with
  | [] => some none
  | [(_, d)] => some (some d)
  | _ => none

/-- The member with a key, which has to be there once. -/
def required? (members : List (String × Document)) (key : String) : Option Document :=
  (member? members key).join

/-- The data set of a document: a record with the three members, or a list of their values. -/
def datasetOf? : Document → Option Dataset
  | .record members => do
    build (← required? members "name") (← required? members "columns")
      (← required? members "rows")
  | .list [name, columns, rows] => build name columns rows
  | _ => none
where
  build (name columns rows : Document) : Option Dataset := do
    return { name := ← textOf? name, columns := ← listOf? textOf? columns,
             rows := ← listOf? rowOf? rows }

def cellDocument : Value → Document
  | .number x => if x.isNaN then .null else .number x
  | .text s => .text s

def datasetDocument (d : Dataset) : Document :=
  .record [("name", .text d.name), ("columns", .list (d.columns.map .text)),
    ("rows", .list (d.rows.map fun row =>
      .record (row.map fun (column, v) => (column, cellDocument v))))]

def toJson (d : Dataset) : String :=
  Json.write 0 (datasetDocument d)

def ofJson (s : String) : Except Error Dataset :=
  match (Json.read? s).bind datasetOf? with
  | some d => .ok d
  | none => .error (.codec .json)

end StepLang.Storage
