import StepLang.Dataset.Row
import StepLang.Sorting
import StepLang.Syntax.Statement

/-! # The order of rows

Rows are ordered by the values of their keys, the first key first. A key that a row lacks, or that
has values of two kinds, does not decide.
-/

namespace StepLang

/-- The order of two rows in one key, reversed for a descending one. -/
def ByVariable.order (key : ByVariable) (r s : Row) : Ordering :=
  match r.get? key.name, s.get? key.name with
  | some v, some w =>
    match v.order? w with
    | some o => if key.descending then o.swap else o
    | none => .eq
  | _, _ => .eq

/-- The rows are equal in one key, numbers within the tolerance. -/
def ByVariable.matches (key : ByVariable) (r s : Row) : Bool :=
  match r.get? key.name, s.get? key.name with
  | some v, some w =>
    match v.compare? w with
    | some o => o.isEq
    | none => true
  | _, _ => true

def compareRows (keys : List ByVariable) (r s : Row) : Ordering :=
  match keys with
  | [] => .eq
  | key :: keys =>
    match key.order r s with
    | .eq => compareRows keys r s
    | o => o

def sameKeys (keys : List ByVariable) (r s : Row) : Bool :=
  keys.all fun key => key.matches r s

/-- Drops every element that is the same as the last one kept before it. -/
def dropRepeats (same : α → α → Bool) : List α → List α
  | [] => []
  | a :: as => a :: dropFrom a as
where
  dropFrom (kept : α) : List α → List α
    | [] => []
    | b :: bs => if same kept b then dropFrom kept bs else b :: dropFrom b bs

def ByVariable.isUniform (key : ByVariable) (rows : List Row) : Bool :=
  [Kind.numeric, .character].any fun kind =>
    rows.all fun r => (r.get? key.name).any (·.kind == kind)

/-- The rows sorted by keys. Uniform keys order the rows, and rows that are equal in them keep their
places; other keys only compare them. -/
def orderRows (keys : List ByVariable) (rows : List Row) : List Row :=
  if keys.all (·.isUniform rows) then rows.mergeSort fun r s => (compareRows keys r s).isLE
  else Sorting.sort (fun r s => (compareRows keys r s).isLT) rows

/-- The rows sorted by keys; on request only the first row of each group is kept, and rows equal
to the one before them are dropped. -/
def sortRows (keys : List ByVariable) (nodupkey noduprecs : Bool) (rows : List Row) : List Row :=
  let sorted := orderRows keys rows
  let single := if nodupkey then dropRepeats (sameKeys keys) sorted else sorted
  if noduprecs then dropRepeats (fun r s => Row.same s r) single else single

end StepLang
