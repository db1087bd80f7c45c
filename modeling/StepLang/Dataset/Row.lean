import StepLang.Text.Letters
import StepLang.Value

/-! # Rows

A row maps column names to values. A name in other letters finds its column too, but only if there
is none in the letters given.
-/

namespace StepLang

/-- The cells of an observation; no two have the same column. -/
abbrev Row := List (String × Value)

namespace Row

/-- The cell of a column in exactly these letters. -/
def cell? (r : Row) (column : String) : Option Value :=
  r.lookup column

/-- The cell of a column in any case of letters. -/
def get? (r : Row) (column : String) : Option Value :=
  match r.cell? column with
  | some v => some v
  | none => (r.find? fun (name, _) => Text.sameName name column).map (·.2)

/-- The value of a column; missing if there is no cell. -/
def get (r : Row) (column : String) : Value :=
  (r.get? column).getD .missing

/-- Sets the cell of a column in exactly these letters. -/
def insert (r : Row) (column : String) (value : Value) : Row :=
  match r with
  | [] => [(column, value)]
  | (name, old) :: rest =>
    if name = column then (name, value) :: rest else (name, old) :: Row.insert rest column value

theorem insert_of_not_mem {r : Row} {column : String} (h : ∀ cell ∈ r, cell.1 ≠ column)
    (value : Value) : r.insert column value = r ++ [(column, value)] := by
  induction r with
  | nil => rfl
  | cons cell r ih =>
    rw [List.forall_mem_cons] at h
    obtain ⟨name, old⟩ := cell
    rw [Row.insert, if_neg h.1, ih h.2, List.cons_append]

/-- The cells of both rows; where both have a column, that of the second. -/
def union (r s : Row) : Row :=
  s.foldl (fun acc (column, value) => Row.insert acc column value) r

/-- The rows have the same columns with equal values. -/
def same (r s : Row) : Bool :=
  r.length == s.length && r.all fun (column, v) =>
    match cell? s column with
    | some w => v.same w
    | none => false

end Row

end StepLang
