import StepLang.DataStep.Input
import StepLang.Dataset.Frequency
import StepLang.Dataset.Summary
import StepLang.Session

/-! # Procedures

Sorting, summarising, listing and counting the rows of a data set, the last one created unless
another one is named.
-/

namespace StepLang.Action

def inputDataset (data : Option DatasetRef) : Action (DatasetRef × Dataset) := do
  let s ← get
  match data <|> s.last with
  | some r => return (r, ← ofExcept (s.dataset r))
  | none => throw (.noDataset "_LAST_")

def checkColumns (r : DatasetRef) (d : Dataset) (names : List String) : Action Unit :=
  match names.find? fun n => (d.columnIndex? n).isNone with
  | some name => throw (.noVariable (Text.upper name) r.toText)
  | none => return

def noteRead (r : DatasetRef) (count : Nat) : Action Unit :=
  log [DataStep.readNote r count]

def noteMade (r : DatasetRef) (rows columns : Nat) : Action Unit :=
  note s!"The data set {r.toText} has {rows} observations and {columns} variables."

def rowScope (s : Session) (row : Row) : Scope :=
  { s.scope with value := row.get }

def selectRows (condition : Expression) : List Row → Action (List Row)
  | [] => return []
  | row :: rows => do
    let scope := rowScope (← get) row
    log (evaluationLog scope condition)
    let v ← ofExcept (evaluate scope condition)
    let rest ← selectRows condition rows
    return if v.isTrue then row :: rest else rest

/-- The rows for which a condition holds, all of them if there is none. -/
def inputRows (condition : Option Expression) (rows : List Row) : Action (List Row) :=
  match condition with
  | some condition => selectRows condition rows
  | none => pure rows

/-- The notes on a data set that was sorted: how many rows were selected, and how many are left. -/
def noteSorted (request : SortRequest) (r : DatasetRef) (d : Dataset) (selected left : Nat) :
    Action Unit := do
  if request.duplicates then note "DUPLICATES is accepted and has no effect."
  if left < selected then
    note s!"{selected - left} observations with duplicate key values were deleted."
  noteRead r d.rows.length
  noteMade (request.out.getD r) left d.columns.length

def sort (request : SortRequest) : Action Unit := do
  let (r, d) ← inputDataset request.data
  checkColumns r d (request.keys.map (·.name))
  let selected ← inputRows request.condition d.rows
  let rows := sortRows request.keys request.nodupkey request.noduprecs selected
  noteSorted request r d selected.length rows.length
  storeDataset (request.out.getD r) { d with rows }

def defaultStatistics : List Statistic := [.n, .mean, .min, .max]

/-- The row of a summary data set: each name with the statistic of the variable in its place. -/
def summaryRow (columns : List (Statistic × List String)) (summaries : List (String × Summary)) :
    List (String × Value) :=
  columns.flatMap fun (statistic, names) =>
    List.zipWith (fun name (_, summary) => (name, summary.statistic statistic)) names summaries

def means (request : MeansRequest) : Action Unit := do
  let (r, d) ← inputDataset request.data
  checkColumns r d request.vars
  let statistics :=
    if request.statistics.isEmpty then defaultStatistics else request.statistics
  let summaries := request.vars.map fun v =>
    let column := (d.column? v).getD v
    (column, Summary.ofColumn d column)
  list {
    header := "Variable" :: statistics.map (·.label)
    rows := summaries.map fun (column, summary) =>
      column :: statistics.map fun s => (summary.statistic s).toText }
  noteRead r d.rows.length
  match request.output with
  | none => return
  | some output =>
    for (statistic, names) in output.columns do
      if summaries.length < names.length then
        log [⟨.warn, s!"WARNING: {names.length} names were given for {statistic.label} and " ++
          s!"only {summaries.length} variables were analyzed."⟩]
    let summary := Dataset.pushRow { name := output.out.name }
      (summaryRow output.columns summaries)
    noteMade output.out 1 summary.columns.length
    storeDataset output.out summary

def print (request : PrintRequest) : Action Unit := do
  let (r, d) ← inputDataset request.data
  checkColumns r d request.vars
  list (Table.ofDataset d request.vars request.obs request.noobs)

def percentText (part total : Nat) : String :=
  Number.toFixedText 2 (Float.ofNat part * 100.0 / Float.ofNat total)

/-- The rows of a frequency table, where `before` values were counted in earlier rows. -/
def frequencyRows (total : Nat) : (before : Nat) → List (Value × Nat) → List (List String)
  | _, [] => []
  | before, (v, n) :: rest =>
    [v.toText, toString n, percentText n total, toString (before + n),
      percentText (before + n) total] :: frequencyRows total (before + n) rest

def frequencyTable (column : String) (f : Frequencies) : Table where
  header := [column, "Frequency", "Percent", "Cumulative Frequency", "Cumulative Percent"]
  rows := frequencyRows (f.counts.foldl (fun total c => total + c.2) 0) 0 f.counts

def freq (request : FreqRequest) : Action Unit := do
  let (r, d) ← inputDataset request.data
  let tables := if request.tables.isEmpty then d.columns else request.tables
  checkColumns r d tables
  for table in tables do
    let column := (d.column? table).getD table
    let f := Frequencies.ofColumn d column
    list (frequencyTable column f)
    if 0 < f.missing then note s!"Frequency Missing = {f.missing} for {column}."

end StepLang.Action
