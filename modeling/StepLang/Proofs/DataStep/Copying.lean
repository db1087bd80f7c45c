import StepLang.Proofs.DataStep.InStream
import StepLang.Proofs.Dataset

/-! # Copying a data set

A step that only reads a data set writes it with a cell in every column, converted to the kind of
the column. The kinds of the columns are guessed from the cells; the copy has cells of these kinds
only, so a copy of the copy is the same, and a data set that has all its cells, of one kind in each
column, is copied as it is.
-/

namespace StepLang

open DataStep

theorem Value.convert_of_kind {v : Value} {k : Kind} (h : v.kind = k) : v.convert k = v := by
  subst h
  cases v <;> rfl

theorem Row.Within.cell?_eq_none {row : Row} {columns : List String} {c : String}
    (h : row.Within (· ∈ columns)) (hc : c ∉ columns) : row.cell? c = none := by
  refine Row.cell?_eq_none_iff.mpr fun hm => hc ?_
  obtain ⟨cell, hcell, rfl⟩ := List.mem_map.mp hm
  exact h cell hcell

namespace Dataset

/-- The cell of a copy: that of the row converted to a kind, or else the missing value of the
kind. -/
def copyCell (kind : Kind) (cell : Option Value) : Value :=
  (cell.map (·.convert kind)).getD (.missingOf kind)

/-- The row with a cell in every column, of the kind of the column. -/
def copyRow (d : Dataset) (row : Row) : Row :=
  d.columns.map fun c => (c, copyCell (Plan.columnKind d c) (row.cell? c))

/-- The data set as a step that only reads it writes it. -/
def copy (d : Dataset) : Dataset :=
  { d with rows := d.rows.map d.copyRow }

variable {d : Dataset} {c : String}

theorem kind_copyCell (kind : Kind) (cell : Option Value) : (copyCell kind cell).kind = kind := by
  cases cell with
  | none => exact Value.kind_missingOf kind
  | some v => exact Value.kind_convert v kind

theorem copyCell_of_kind {kind : Kind} {v : Value} (h : v.kind = kind) :
    copyCell kind (some v) = v :=
  Value.convert_of_kind h

theorem isMap_copyRow (hd : d.DistinctColumns) (row : Row) : (d.copyRow row).IsMap := by
  simpa [Row.IsMap, copyRow, Function.comp_def] using hd.nodup

theorem cell?_copyRow (hd : d.DistinctColumns) (hc : c ∈ d.columns) (row : Row) :
    (d.copyRow row).cell? c = some (copyCell (Plan.columnKind d c) (row.cell? c)) :=
  (isMap_copyRow hd row).cell?_of_mem (List.mem_map_of_mem hc)

theorem within_copyRow (row : Row) : (d.copyRow row).Within (· ∈ d.columns) := by
  rintro cell hcell
  obtain ⟨c, hc, rfl⟩ := List.mem_map.mp hcell
  exact hc

/-! ### The kinds of columns -/

/-- A column whose cells are of one kind is of that kind if the first row has a cell in it. -/
theorem columnKind_of_uniform (hd : d.DistinctColumns) (hc : c ∈ d.columns) {kind : Kind}
    (hk : ∀ row ∈ d.rows, ∀ v, row.cell? c = some v → v.kind = kind)
    {first : Row} {rest : List Row} (hrows : d.rows = first :: rest)
    (hfirst : (first.cell? c).isSome) : Plan.columnKind d c = kind := by
  obtain ⟨v, hv⟩ := Option.isSome_iff_exists.mp hfirst
  have hget : d.get? 0 c = some v := by
    rw [get?, hrows, List.getElem?_cons_zero, Option.bind_some, rowCell?, hd.column?_of_mem hc,
      Option.bind_some, hv]
  unfold Plan.columnKind
  rw [hget]
  cases hpresent : (d.rows.filterMap (·.cell? c)).find? (! ·.isMissing) with
  | none => exact hk first (hrows ▸ List.mem_cons_self) v hv
  | some w =>
    obtain ⟨row, hrow, hw⟩ := List.mem_filterMap.mp (List.mem_of_find?_eq_some hpresent)
    exact hk row hrow w hw

theorem columnKind_of_rows_nil (h : d.rows = []) : Plan.columnKind d c = .numeric := by
  simp [Plan.columnKind, get?, h]

/-- The guess at the kind of a column stands: the cells of the copy are of that kind. -/
theorem columnKind_copy (hd : d.DistinctColumns) (hc : c ∈ d.columns) :
    Plan.columnKind d.copy c = Plan.columnKind d c := by
  cases hrows : d.rows with
  | nil => rw [columnKind_of_rows_nil hrows, columnKind_of_rows_nil (by simp [copy, hrows])]
  | cons first rest =>
    have hcopy : d.copy.rows = d.copyRow first :: rest.map d.copyRow := by
      rw [copy, hrows, List.map_cons]
    refine columnKind_of_uniform (d := d.copy) hd hc ?_ hcopy (by rw [cell?_copyRow hd hc]; rfl)
    intro row hrow v hv
    obtain ⟨row, -, rfl⟩ := List.mem_map.mp hrow
    rw [cell?_copyRow hd hc] at hv
    rw [← Option.some.inj hv, kind_copyCell]

/-- Copying a copy changes nothing. -/
theorem copy_copy (hd : d.DistinctColumns) : d.copy.copy = d.copy := by
  have hrow (row : Row) : d.copy.copyRow (d.copyRow row) = d.copyRow row := by
    refine List.map_congr_left fun c hc => ?_
    rw [cell?_copyRow hd hc, columnKind_copy hd hc, copyCell_of_kind (kind_copyCell _ _)]
  have hrows : d.copy.rows.map d.copy.copyRow = d.copy.rows := by
    rw [copy, List.map_map]
    exact List.map_congr_left fun row _ => hrow row
  rw [copy, hrows]

/-- Every row has a cell in every column, and the cells of a column are of one kind. -/
structure Regular (d : Dataset) : Prop where
  complete : ∀ row ∈ d.rows, ∀ c ∈ d.columns, (row.cell? c).isSome
  uniform : ∀ c ∈ d.columns, ∃ kind, ∀ row ∈ d.rows, ∀ v, row.cell? c = some v → v.kind = kind

/-- The rows of a data set without gaps and mixtures have the same cells in its copy. -/
theorem Regular.cell?_copyRow (h : d.Regular) (hd : d.DistinctColumns) {row : Row}
    (hr : row ∈ d.rows) (hw : row.Within (· ∈ d.columns)) (c : String) :
    (d.copyRow row).cell? c = row.cell? c := by
  by_cases hc : c ∈ d.columns
  · obtain ⟨v, hv⟩ := Option.isSome_iff_exists.mp (h.complete row hr c hc)
    obtain ⟨kind, hk⟩ := h.uniform c hc
    have hkind : Plan.columnKind d c = kind := by
      cases hrows : d.rows with
      | nil =>
        rw [hrows] at hr
        cases hr
      | cons first rest =>
        have hfirst := h.complete first (hrows ▸ List.mem_cons_self) c hc
        exact columnKind_of_uniform hd hc hk hrows hfirst
    rw [Dataset.cell?_copyRow hd hc, hv, hkind, copyCell_of_kind (hk row hr v hv)]
  · rw [(within_copyRow row).cell?_eq_none hc, hw.cell?_eq_none hc]

end Dataset

namespace DataStep

open Exec

variable {d : Dataset} {r : DatasetRef} {setting : Setting} {vs : Variables}

/-! ### The step -/

def columnFields (d : Dataset) : List InputField :=
  d.columns.map fun c => ⟨c, Plan.columnKind d c⟩

def copyPlan (r : DatasetRef) (d : Dataset) : Plan :=
  { vars := fieldVariables (columnFields d), inputs := [(r, d)], hasSet := true }

theorem distinctFields_columnFields (hd : d.DistinctColumns) : DistinctFields (columnFields d) := by
  unfold DistinctFields columnFields
  rw [List.map_map]
  exact hd

theorem ofBody_copy (hr : setting.dataset r = .ok d) (hd : d.DistinctColumns) :
    Plan.ofBody setting [.set [r]] = .ok (copyPlan r d, []) := by
  have hvars : d.columns.foldl (fun vs c => vs.declare c (Plan.columnKind d c)) .empty =
      fieldVariables (columnFields d) := by
    have hfold := foldl_declare_empty (distinctFields_columnFields hd)
    rw [columnFields, List.foldl_map] at hfold
    exact hfold
  have hread : Plan.readInputs setting {} [r] =
      .ok { vars := fieldVariables (columnFields d), inputs := [(r, d)] } := by
    have hplan : ({} : Plan).declareColumns d = { vars := fieldVariables (columnFields d) } := by
      rw [Plan.declareColumns_eq, hvars]
    unfold Plan.readInputs
    rw [hr]
    change Plan.readInputs setting { ({} : Plan).declareColumns d with
      inputs := (({} : Plan).declareColumns d).inputs ++ [(r, d)] } [] = _
    rw [hplan]
    rfl
  simp only [Plan.ofBody, Plan.declareAll, Plan.declare, hread]
  rfl

theorem compile_copy (hlimit : setting.obsLimit = none) (hr : setting.dataset r = .ok d)
    (hd : d.DistinctColumns) : ∃ notes, compile setting [.set [r]] =
      (notes, .ok (copyPlan r d, d.rows.map some)) := by
  have hrows : (copyPlan r d).rows = ([readNote r d.rows.length], .ok (some d.rows)) := by
    simp [Plan.rows, copyPlan]
  rw [compile, ofBody_copy hr hd]
  dsimp only
  rw [hrows, hlimit]
  exact ⟨_, rfl⟩

theorem columns_copyPlan : (copyPlan r d).columns = d.columns := by
  simp [Plan.columns, copyPlan, fieldVariables, columnFields, Function.comp_def]

/-! ### One observation -/

theorem find?_columnFields (hd : d.DistinctColumns) {c : String} (hc : c ∈ d.columns) :
    (fieldVariables (columnFields d)).find? c =
      some { name := c, kind := Plan.columnKind d c } :=
  find?_fieldVariables (f := ⟨c, Plan.columnKind d c⟩) (distinctFields_columnFields hd)
    (List.mem_map_of_mem hc)

theorem has_columnFields (hd : d.DistinctColumns) {c : String} (hc : c ∈ d.columns) :
    (fieldVariables (columnFields d)).Has c := by
  rw [← Variables.find?_isSome_iff, find?_columnFields hd hc]
  rfl

/-- In columns that are distinct in any case of letters, the last cell for a name is its only
one. -/
theorem lastValue?_eq_cell? (hd : d.DistinctColumns) {row : Row} (hm : row.IsMap)
    (hw : row.Within (· ∈ d.columns)) {c : String} (hc : c ∈ d.columns) :
    row.lastValue? c = row.cell? c := by
  have hupper : ∀ c ∈ d.columns, ∀ c' ∈ d.columns, Text.upper c = Text.upper c' → c = c' :=
    fun c hc c' hc' h => List.inj_on_of_nodup_map hd hc hc' h
  cases hcell : row.cell? c with
  | some v =>
    have hnodup : (row.map fun cell => Text.upper cell.1).Nodup := by
      have hmap := hm.map_on fun c hc c' hc' h => by
        obtain ⟨cell, hcell, rfl⟩ := List.mem_map.mp hc
        obtain ⟨cell', hcell', rfl⟩ := List.mem_map.mp hc'
        exact hupper _ (hw cell hcell) _ (hw cell' hcell') h
      rwa [List.map_map] at hmap
    exact lastValue?_of_mem hnodup (Row.mem_of_cell? hcell)
  | none =>
    refine Row.lastValue?_eq_none_iff.mpr fun cell hm h => ?_
    obtain rfl := hupper _ (hw cell hm) c hc h
    exact Row.cell?_eq_none_iff.mp hcell (List.mem_map_of_mem hm)

/-- The variables have the headers with which the step starts. -/
def Fresh (d : Dataset) (vs : Variables) : Prop :=
  vs.headers = (fieldVariables (columnFields d)).headers

theorem Fresh.load (hd : d.DistinctColumns) (h : Fresh d vs) {row : Row}
    (hw : row.Within (· ∈ d.columns)) : Fresh d (Step.load vs (some row)) := by
  refine load_keeps (J := Fresh d) (fun vs h => (vs.headers_reset).trans h) ?_ h
  intro cell hcell v vs h
  have hhas := (Variables.has_iff_of_headers h cell.1).mpr (has_columnFields hd (hw cell hcell))
  exact (Variables.headers_set_of_has hhas v).trans h

/-- No variable is retained, so an observation does not depend on the one before. -/
theorem Fresh.load_eq (h : Fresh d vs) (row : Row) :
    Step.load vs (some row) = Step.load (fieldVariables (columnFields d)) (some row) := by
  have hnone : (fieldVariables (columnFields d)).headers.filter (·.retained) = [] := by
    rw [← Variables.filter_retained_eq_nil_iff]
    simp [fieldVariables]
  have hreset : vs.reset = (fieldVariables (columnFields d)).reset := by
    refine Variables.reset_congr h ?_
    rw [(Variables.filter_retained_eq_nil_iff vs).mpr (by rw [h, hnone]),
      (Variables.filter_retained_eq_nil_iff _).mpr hnone]
  unfold Step.load
  rw [hreset]

theorem Fresh.outputRow_load {step : Step} (hc : step.columns = d.columns) (hd : d.DistinctColumns)
    (h : Fresh d vs) {row : Row} (hm : row.IsMap) (hw : row.Within (· ∈ d.columns)) :
    step.outputRow (Step.load vs (some row)) = d.copyRow row := by
  rw [h.load_eq, Step.outputRow, hc, Dataset.copyRow]
  refine List.map_congr_left fun c hc => ?_
  have hhas : row.Within (fieldVariables (columnFields d)).Has := fun cell hcell =>
    has_columnFields hd (hw cell hcell)
  rw [get_load hhas (find?_columnFields hd hc), lastValue?_eq_cell? hd hm hw hc]
  have hfit (v : Value) : ({ name := c, kind := Plan.columnKind d c } : Variable).fit v =
      v.convert (Plan.columnKind d c) := by
    unfold Variable.fit
    cases v.convert (Plan.columnKind d c) <;> rfl
  cases row.cell? c with
  | none => rfl
  | some v => exact congrArg (Prod.mk c) (hfit v)

/-- A step that only reads a data set writes its copy. -/
theorem runStep_copy (hlimit : setting.obsLimit = none) (hr : setting.dataset r = .ok d)
    (hd : d.DistinctColumns) (hm : ∀ row ∈ d.rows, row.IsMap) (hw : d.WellKeyed) :
    ∃ log, runStep setting [.set [r]] = (log, .ok {
      outputs := setting.outputs.map fun r => (r, { d.copy with name := r.name })
      errors := []
      iterations := d.rows.length }) := by
  obtain ⟨notes, hcompile⟩ := compile_copy hlimit hr hd
  have hc : ((copyPlan r d).step setting).columns = d.columns := columns_copyPlan
  have hload : ∀ vs, Fresh d vs → ∀ row ∈ d.rows, Fresh d (Step.load vs (some row)) ∧
      ((copyPlan r d).step setting).outputRow (Step.load vs (some row)) = d.copyRow row :=
    fun vs h row hrow =>
      ⟨h.load hd (hw row hrow), h.outputRow_load hc hd (hm row hrow) (hw row hrow)⟩
  obtain ⟨log, hrun⟩ := runStep_idle hcompile (fun _ _ => rfl) rfl hload rfl
  rw [columns_copyPlan] at hrun
  exact ⟨log, hrun⟩

end DataStep

end StepLang
