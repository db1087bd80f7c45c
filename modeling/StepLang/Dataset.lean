import StepLang.Dataset.Row

/-! # Data sets

A data set is a table: columns in the order of their first appearance, and rows.
-/

namespace StepLang

structure Dataset where
  name : String
  columns : List String := []
  rows : List Row := []
  deriving Inhabited

namespace Dataset

/-- The place of a column, in any case of letters. -/
def columnIndex? (d : Dataset) (column : String) : Option Nat :=
  d.columns.findIdx? fun c => Text.sameName c column

def column? (d : Dataset) (column : String) : Option String :=
  d.columns.find? fun c => Text.sameName c column

/-- Adds a column unless there is one of that name; gives its spelling. -/
def addColumn (d : Dataset) (column : String) : Dataset × String :=
  match d.column? column with
  | some spelling => (d, spelling)
  | none => ({ d with columns := d.columns ++ [column] }, column)

def withColumns (name : String) (columns : List String) : Dataset :=
  columns.foldl (fun d column => (d.addColumn column).1) { name }

/-- Adds the columns of cells, and spells the cells as the columns are spelled. -/
def addCells (d : Dataset) : List (String × Value) → Row → Dataset × Row
  | [], row => (d, row)
  | (column, value) :: rest, row =>
    let (d, spelling) := d.addColumn column
    d.addCells rest (row.insert spelling value)

/-- Appends a row of cells; new columns are added in the order of the cells. -/
def pushRow (d : Dataset) (cells : List (String × Value)) : Dataset :=
  let (d, row) := d.addCells cells []
  { d with rows := d.rows ++ [row] }

def sortCells (cells : List (String × Value)) : List (String × Value) :=
  cells.mergeSort fun a b => a.1 ≤ b.1

/-- Appends a row; new columns are added in the order of their names. -/
def addRow (d : Dataset) (row : Row) : Dataset :=
  d.pushRow (sortCells row)

def rowCell? (d : Dataset) (row : Row) (column : String) : Option Value :=
  (d.column? column).bind row.cell?

def get? (d : Dataset) (i : Nat) (column : String) : Option Value :=
  (d.rows[i]?).bind fun row => d.rowCell? row column

def value (d : Dataset) (i : Nat) (column : String) : Value :=
  (d.get? i column).getD .missing

def orderedValues (d : Dataset) (row : Row) : List Value :=
  d.columns.map fun c => (row.cell? c).getD .missing

/-- The values of a column from the first row to the last; missing where there is no cell. -/
def columnValues (d : Dataset) (column : String) : List Value :=
  d.rows.map fun row => (d.rowCell? row column).getD .missing

end Dataset

end StepLang
