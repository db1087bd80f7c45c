import StepLang.DataStep.Plan
import StepLang.Dataset.Order
import StepLang.Text.Lines

/-! # The rows that a DATA step reads

Rows come from data sets one after the other, from data sets side by side, or from data lines in
the program.
-/

namespace StepLang.DataStep

/-! ### Merging -/

/-- The union of the rows of one position; later data sets win. -/
def joinRows (rows : List Row) : Row :=
  rows.foldl Row.union []

def mergeByPosition (sources : List (List Row)) : List Row :=
  let longest := (sources.map List.length).foldl max 0
  (List.range longest).map fun i => joinRows (sources.filterMap (·[i]?))

/-- The least of rows, and of equal ones the first. -/
def leastRow? (keys : List ByVariable) : List Row → Option Row
  | [] => none
  | r :: rs => some (rs.foldl (fun best s => if (compareRows keys best s).isGT then s else best) r)

/-- The rows of one group: the i-th rows joined, where a shorter source repeats its last row. -/
def mergeGroup (groups : List (List Row)) : List Row :=
  let longest := (groups.map List.length).foldl max 0
  (List.range longest).map fun i =>
    joinRows (groups.filterMap fun g => g[i]? <|> g.getLast?)

/-- Sorted data sets side by side, group by group. The bound is on the number of groups. -/
def mergeGroups (keys : List ByVariable) : (bound : Nat) → List (List Row) → List Row
  | 0, _ => []
  | bound + 1, sources =>
    match leastRow? keys (sources.filterMap (·.head?)) with
    | none => []
    | some key =>
      let groups := sources.map (·.takeWhile fun r => sameKeys keys r key)
      let rest := sources.map (·.dropWhile fun r => sameKeys keys r key)
      mergeGroup groups ++ mergeGroups keys bound rest

/-- Data sets side by side: by position, or by the groups of keys. -/
def merge (keys : List ByVariable) (sources : List (List Row)) : List Row :=
  if keys.isEmpty then mergeByPosition sources
  else mergeGroups keys sources.flatten.length sources

/-! ### Data lines -/

/-- The value of a field: a point alone or nothing is missing, and so is a numeric field that is
no number, which is noted. -/
def fieldValue (line : Nat) (field : InputField) (word : Option String) :
    Value × List LogLine :=
  match word, field.kind with
  | none, kind => (.missingOf kind, [])
  | some ".", kind => (.missingOf kind, [])
  | some s, .character => (.text s, [])
  | some s, .numeric =>
    match Number.read? s with
    | some x => (.number x, [])
    | none => (.missing, [⟨.warn, s!"NOTE: Invalid data for {field.name} in line {line}: {s}"⟩])

def readFields (line : Nat) : List InputField → List String → Row → Row × List LogLine
  | [], _, row => (row, [])
  | field :: fields, words, row =>
    let (value, notes) := fieldValue line field words.head?
    let (row, more) := readFields line fields words.tail (row.insert field.name value)
    (row, notes ++ more)

/-- Reads rows from numbered lines; blank lines are passed over. -/
def readLines (fields : List InputField) : List (String × Nat) → List Row × List LogLine
  | [] => ([], [])
  | (line, n) :: rest =>
    let words := Text.words line
    if words.isEmpty then readLines fields rest
    else
      let (row, notes) := readFields n fields words []
      let (rows, more) := readLines fields rest
      (row :: rows, notes ++ more)

def readData (fields : List InputField) (text : String) : List Row × List LogLine :=
  readLines fields ((Text.lines text).zipIdx 1)

/-! ### The rows of a plan -/

def readNote (r : DatasetRef) (count : Nat) : LogLine :=
  ⟨.info, s!"NOTE: There were {count} observations read from the data set {r.toText}."⟩

/-- The rows that a step reads; a step that reads none runs once without a row. -/
def Plan.rows (p : Plan) : List LogLine × Except Error (Option (List Row)) :=
  if p.hasMerge then
    if p.hasSet then
      ([], .error (.unsupportedStatement "SET and MERGE in the same DATA step"))
    else ([], .ok (some (merge p.keys (p.inputs.map (·.2.rows)))))
  else if p.hasSet then
    let rows := p.inputs.flatMap (·.2.rows)
    let ordered := if p.keys.isEmpty then rows else orderRows p.keys rows
    (p.inputs.map fun (r, d) => readNote r d.rows.length, .ok (some ordered))
  else if !p.fields.isEmpty then
    match p.dataLines with
    | some text =>
      let (rows, notes) := readData p.fields text
      (notes, .ok (some rows))
    | none => ([], .error (.unsupportedStatement "INPUT without DATALINES"))
  else if p.dataLines.isSome then
    ([⟨.warn, "WARNING: DATALINES without an INPUT statement are ignored."⟩], .ok none)
  else ([], .ok none)

/-- The observations of a step, at most as many as the limit. -/
def observations (limit : Option Nat) : Option (List Row) → List (Option Row)
  | none => [none]
  | some rows =>
    match limit with
    | some n => (rows.take n).map some
    | none => rows.map some

end StepLang.DataStep
