import StepLang.Proofs.Session.Storing
import StepLang.Proofs.StableSort
import StepLang.Session.Procedure

/-! # Sorting data sets

What the sort procedure stores is a stable sort of the rows that it selects.
-/

namespace StepLang.Action

variable {s : Session} {r : DatasetRef} {d : Dataset}

theorem out_inputDataset {data : Option DatasetRef} (hin : (data <|> s.last) = some r)
    (hd : s.dataset r = .ok d) : (inputDataset data).out s = (.ok (r, d), s) := by
  unfold inputDataset
  rw [out_bind_of_ok (out_get s)]
  simp only [hin]
  rw [out_bind_of_ok (out_ofExcept _ s |>.trans (by rw [hd]))]
  rfl

theorem out_checkColumns_ok_iff {names : List String} {s' : Session} :
    (checkColumns r d names).out s = (.ok (), s') ↔
      (∀ name ∈ names, (d.columnIndex? name).isSome) ∧ s' = s := by
  unfold checkColumns
  cases hf : names.find? fun n => (d.columnIndex? n).isNone with
  | none =>
    rw [List.find?_eq_none] at hf
    have hall : ∀ name ∈ names, (d.columnIndex? name).isSome := by
      intro name hn
      simpa [Option.isSome_iff_ne_none] using hf name hn
    constructor
    · rintro ⟨⟩
      exact ⟨hall, rfl⟩
    · rintro ⟨-, rfl⟩
      rfl
  | some name =>
    have hn := List.mem_of_find?_eq_some hf
    have hnone := List.find?_some hf
    simp only [out_throw, Prod.mk.injEq, reduceCtorEq, false_and, false_iff, not_and]
    intro hall
    have := hall name hn
    simp_all

/-- A condition, if there is one, has a value on each of the rows. -/
def Evaluates (s : Session) (condition : Option Expression) (rows : List Row) : Prop :=
  ∀ c, condition = some c → ∀ row ∈ rows, ∃ v, evaluate (rowScope s row) c = .ok v

/-- A row for which a condition holds, or any row if there is no condition. -/
def selects (s : Session) (condition : Option Expression) (row : Row) : Bool :=
  match condition with
  | none => true
  | some c =>
    match evaluate (rowScope s row) c with
    | .ok v => v.isTrue
    | .error _ => false

theorem out_selectRows {c : Expression} {rows : List Row} {log : Log}
    (h : ∀ row ∈ rows, ∃ v, evaluate (rowScope s row) c = .ok v) :
    ∃ log', (selectRows c rows).out { s with log } =
      (.ok (rows.filter (selects s (some c))), { s with log := log' }) := by
  induction rows generalizing log with
  | nil => exact ⟨log, rfl⟩
  | cons row rows ih =>
    obtain ⟨v, hv⟩ := h row List.mem_cons_self
    have hscope : rowScope { s with log } row = rowScope s row := rfl
    obtain ⟨log', hrest⟩ := @ih (log ++ evaluationLog (rowScope s row) c)
      fun row hr => h row (List.mem_cons_of_mem _ hr)
    refine ⟨log', ?_⟩
    have hsel : selects s (some c) row = v.isTrue := by simp only [selects, hv]
    rw [List.filter_cons, hsel]
    unfold selectRows
    rw [out_bind_of_ok (out_get _), out_bind_of_ok (out_log _ _), hscope, hv,
      out_bind_of_ok (out_ofExcept _ _), out_bind_of_ok hrest, out_pure]

theorem out_inputRows {condition : Option Expression} {rows : List Row}
    (h : Evaluates s condition rows) :
    ∃ log, (inputRows condition rows).out s =
      (.ok (rows.filter (selects s condition)), { s with log }) := by
  cases condition with
  | none =>
    have hall : rows.filter (selects s none) = rows := List.filter_eq_self.mpr fun _ _ => rfl
    rw [hall]
    exact ⟨s.log, rfl⟩
  | some c => exact out_selectRows (h c rfl)

theorem out_noteSorted (request : SortRequest) (r : DatasetRef) (d : Dataset) (selected left : Nat)
    (s : Session) :
    ∃ log, (noteSorted request r d selected left).out s = (.ok (), { s with log }) := by
  unfold noteSorted
  split <;> split <;> exact ⟨_, rfl⟩

/-- What the sort procedure does once its data set and its columns are found. -/
theorem out_sort {request : SortRequest} (hin : (request.data <|> s.last) = some r)
    (hd : s.dataset r = .ok d) (he : Evaluates s request.condition d.rows)
    (hcols : ∀ key ∈ request.keys, (d.columnIndex? key.name).isSome) :
    ∃ log, (sort request).out s =
      (storeDataset (request.out.getD r) { d with
        rows := sortRows request.keys request.nodupkey request.noduprecs
          (d.rows.filter (selects s request.condition)) }).out { s with log } := by
  have hcheck : (checkColumns r d (request.keys.map (·.name))).out s = (.ok (), s) :=
    out_checkColumns_ok_iff.mpr ⟨by simpa using hcols, rfl⟩
  obtain ⟨log, hrows⟩ := out_inputRows he
  generalize hsel : d.rows.filter (selects s request.condition) = selected at hrows
  let left := (sortRows request.keys request.nodupkey request.noduprecs selected).length
  obtain ⟨log', hnote⟩ := out_noteSorted request r d selected.length left { s with log }
  refine ⟨log', ?_⟩
  unfold sort
  rw [out_bind_of_ok (out_inputDataset hin hd), out_bind_of_ok hcheck, out_bind_of_ok hrows,
    out_bind_of_ok hnote]

/-- The sort procedure fails unless its keys are columns. -/
theorem columns_of_sort_ok {request : SortRequest} {s' : Session}
    (hin : (request.data <|> s.last) = some r) (hd : s.dataset r = .ok d)
    (h : (sort request).out s = (.ok (), s')) :
    ∀ key ∈ request.keys, (d.columnIndex? key.name).isSome := by
  unfold sort at h
  rw [out_bind_of_ok (out_inputDataset hin hd), out_bind_ok_iff] at h
  obtain ⟨_, _, hcheck, -⟩ := h
  simpa using (out_checkColumns_ok_iff.mp hcheck).1

/-- The sort procedure without removal of duplicates. It ends without an error if and only if its
keys are columns and its output can be stored. It stores a stable sort of the rows that it selects,
and it leaves its input as it was unless that is where it stores. -/
theorem sort_stores_stableSort {request : SortRequest} (hkey : request.nodupkey = false)
    (hrecs : request.noduprecs = false) (hin : (request.data <|> s.last) = some r)
    (hd : s.dataset r = .ok d) (hu : UniformKeys request.keys d.rows)
    (he : Evaluates s request.condition d.rows) :
    OrderedBy request.keys d.rows ∧
    ((∃ s', (sort request).out s = (.ok (), s')) ↔
      (∀ key ∈ request.keys, (d.columnIndex? key.name).isSome) ∧
        s.CanStore (request.out.getD r)) ∧
    ∀ s', (sort request).out s = (.ok (), s') →
      (∃ rows, s'.dataset (request.out.getD r) =
          .ok { name := (request.out.getD r).name, columns := d.columns, rows } ∧
        StableSort request.keys (d.rows.filter (selects s request.condition)) rows) ∧
      (¬ s.SameDataset (request.out.getD r) r → s'.dataset r = .ok d) := by
  have hsorted : StableSort request.keys (d.rows.filter (selects s request.condition))
      (sortRows request.keys request.nodupkey request.noduprecs
        (d.rows.filter (selects s request.condition))) := by
    simp only [sortRows, hkey, hrecs, Bool.false_eq_true, if_false]
    exact (hu.mono fun row hr => (List.mem_filter.mp hr).1).stableSort
  refine ⟨hu.orderedBy, ⟨?_, ?_⟩, ?_⟩
  · rintro ⟨s', h⟩
    have hcols := columns_of_sort_ok hin hd h
    obtain ⟨log, hsort⟩ := out_sort hin hd he hcols
    exact ⟨hcols, (@Session.canStore_iff { s with log } _ _).mpr ⟨s', hsort.symm.trans h⟩⟩
  · rintro ⟨hcols, hstore⟩
    obtain ⟨log, hsort⟩ := out_sort hin hd he hcols
    obtain ⟨s', h⟩ := (@Session.canStore_iff { s with log } _ _).mp hstore
    exact ⟨s', hsort.trans h⟩
  · intro s' h
    obtain ⟨log, hsort⟩ := out_sort hin hd he (columns_of_sort_ok hin hd h)
    obtain ⟨l, files, hl, -, hs, rfl⟩ := Session.storeDataset_ok_iff.mp (hsort.symm.trans h)
    refine ⟨⟨_, Session.dataset_keep_self, hsorted⟩, fun hne => ?_⟩
    exact Session.dataset_keep_other hl hs hd hne

def bills : Dataset where
  name := "bills"
  columns := ["who", "cost"]
  rows := [
    [("who", .text "b"), ("cost", .number 2.0)], [("who", .text "c"), ("cost", .number 9.0)],
    [("who", .text "a "), ("cost", .number 2.0)], [("who", .text "b"), ("cost", .missing)],
    [("who", .text "a"), ("cost", .number 2.0)]]

def billLibrary : Library :=
  { Library.work with datasets := NameMap.insert {} "bills" bills }

def office : Session where
  libraries := NameMap.insert {} "WORK" billLibrary

/-- The dearest bills first, and those of one cost by name. -/
def dearestFirst : SortRequest where
  data := some ⟨none, "BILLS"⟩
  out := some ⟨none, "sorted"⟩
  keys := [⟨"cost", true⟩, ⟨"who", false⟩]
  condition := some (.binary .notEq (.ref "who") (.text "c"))

theorem sort_stores_stableSort_dearestFirst :
    office.dataset ⟨none, "BILLS"⟩ = .ok bills ∧ UniformKeys dearestFirst.keys bills.rows ∧
      Evaluates office dearestFirst.condition bills.rows ∧
      ∃ s' rows, (sort dearestFirst).out office = (.ok (), s') ∧
        s'.dataset ⟨none, "sorted"⟩ = .ok { name := "sorted", columns := ["who", "cost"], rows } ∧
        StableSort dearestFirst.keys (bills.rows.filter (selects office dearestFirst.condition))
          rows ∧
        s'.dataset ⟨none, "BILLS"⟩ = .ok bills := by
  have hl : office.library none = .ok billLibrary :=
    Session.library_eq_ok_iff.mpr (NameMap.find?_insert_self _ _ _)
  have hd : office.dataset ⟨none, "BILLS"⟩ = .ok bills := by
    have hname : Text.upper "BILLS" = Text.upper "bills" := by
      simp [Text.upper, ← String.toList_inj]
    exact Session.dataset_eq_ok_iff.mpr
      ⟨billLibrary, hl, Library.load?_of_find? (NameMap.find?_insert_of_eq _ hname _) _⟩
  have hu : UniformKeys dearestFirst.keys bills.rows := by decide +kernel
  have he : Evaluates office dearestFirst.condition bills.rows := by
    rintro _ ⟨⟩ row hr
    have hall : bills.rows.all fun row => (evaluate (rowScope office row)
        (.binary .notEq (.ref "who") (.text "c"))).isOk := by decide +kernel
    have hok := List.all_eq_true.mp hall row hr
    cases hv : evaluate (rowScope office row) (.binary .notEq (.ref "who") (.text "c")) with
    | ok v => exact ⟨v, rfl⟩
    | error e => simp [hv, Except.isOk, Except.toBool] at hok
  obtain ⟨-, hok, hall⟩ := sort_stores_stableSort rfl rfl rfl hd hu he
  obtain ⟨s', h⟩ := hok.mpr
    ⟨by decide +kernel, billLibrary, hl, by decide, fun path hp => by cases hp⟩
  obtain ⟨⟨rows, hstored, hsorted⟩, hkept⟩ := hall s' h
  refine ⟨hd, hu, he, s', rows, h, hstored, hsorted, hkept ?_⟩
  rintro (⟨-, hname⟩ | ⟨l, l', path, path', place, hl', -, hp, -⟩)
  · have hne : Text.upper "sorted" ≠ Text.upper "BILLS" := by
      simp [Text.upper, ← String.toList_inj]
    exact hne hname
  · cases hl.symm.trans hl'
    cases hp

end StepLang.Action
