import StepLang.Dataset

/-! # Frequencies of values

How often each value of a column occurs. Values that compare equal are counted together.
-/

namespace StepLang

/-- The distinct values of a column with their counts, and the count of missing ones. -/
structure Frequencies where
  counts : List (Value × Nat) := []
  missing : Nat := 0

namespace Frequencies

/-- Counts a value with the first one that it equals. -/
def tally (v : Value) : List (Value × Nat) → List (Value × Nat)
  | [] => [(v, 1)]
  | (w, n) :: rest => if w.same v then (w, n + 1) :: rest else (w, n) :: tally v rest

def add (f : Frequencies) (v : Value) : Frequencies :=
  if v.isMissing then { f with missing := f.missing + 1 }
  else { f with counts := tally v f.counts }

/-- The order of listed values: numbers before texts, each kind in its own order. -/
def precedes (v w : Value) : Bool :=
  match v.order? w with
  | some o => o.isLT
  | none => v.kind == .numeric

def ofColumn (d : Dataset) (column : String) : Frequencies :=
  let f := (d.columnValues column).foldl add {}
  { f with counts := f.counts.mergeSort fun a b => !precedes b.1 a.1 }

end Frequencies

end StepLang
