import Mathlib.Data.List.Nodup
import StepLang.Proofs.DataStep.DataLines
import StepLang.Proofs.DataStep.History
import StepLang.Proofs.DataStep.LoadOrder

/-! # A step that reads its own data

A step with an INPUT statement and data lines writes a row for each line, with the fields as its
columns: nothing of one observation is left in the next, and the values of the words fit the
variables that are declared for them.
-/

namespace StepLang.DataStep

variable {fields : List InputField}

/-- The fields have names that differ not only in the case of letters. -/
def DistinctFields (fields : List InputField) : Prop :=
  (fields.map fun f => Text.upper f.name).Nodup

theorem DistinctFields.nodup_names (h : DistinctFields fields) : (fields.map (·.name)).Nodup := by
  apply List.Nodup.of_map Text.upper
  rwa [List.map_map]

/-! ### The plan -/

def fieldVariables (fields : List InputField) : Variables :=
  ⟨fields.map fun f => { name := f.name, kind := f.kind }⟩

def inStreamPlan (fields : List InputField) (text : String) : Plan :=
  { vars := fieldVariables fields, fields, dataLines := some text }

theorem foldl_declare {vs : Variables} (hn : DistinctFields fields)
    (hv : ∀ f ∈ fields, ¬ vs.Has f.name) :
    fields.foldl (fun vs f => vs.declare f.name f.kind) vs =
      ⟨vs.entries ++ (fieldVariables fields).entries⟩ := by
  induction fields generalizing vs with
  | nil => simp [fieldVariables]
  | cons f fields ih =>
    rw [List.forall_mem_cons] at hv
    obtain ⟨hf, hv⟩ := hv
    rw [DistinctFields, List.map_cons, List.nodup_cons] at hn
    have hdeclare : vs.declare f.name f.kind =
        ⟨vs.entries ++ [{ name := f.name, kind := f.kind }]⟩ := by
      rw [Variables.declare, Variables.add_of_not_has hf]
    rw [List.foldl_cons, hdeclare, ih hn.2]
    · simp [fieldVariables]
    · intro g hg hhas
      rw [Variables.Has, Variables.keys, List.map_append, List.mem_append] at hhas
      rcases hhas with hhas | hhas
      · exact hv g hg hhas
      · apply hn.1
        rw [List.map_singleton, List.mem_singleton] at hhas
        exact List.mem_map.mpr ⟨g, hg, hhas⟩

theorem foldl_declare_empty (hn : DistinctFields fields) :
    fields.foldl (fun vs f => vs.declare f.name f.kind) .empty = fieldVariables fields := by
  rw [foldl_declare hn (by simp [Variables.Has, Variables.keys, Variables.empty])]
  rfl

theorem ofBody_inStream (setting : Setting) (hn : DistinctFields fields) (text : String) :
    Plan.ofBody setting [.input fields, .dataLines text] = .ok (inStreamPlan fields text, []) := by
  have hplan : fields.foldl (fun p f => p.declareVariable f.name f.kind) ({} : Plan) =
      { vars := fieldVariables fields } := by
    rw [Plan.foldl_declareVariable, foldl_declare_empty hn]
  simp only [Plan.ofBody, Plan.declareAll, Plan.declare, hplan]
  rfl

theorem compile_inStream {setting : Setting} (hlimit : setting.obsLimit = none)
    (hn : DistinctFields fields) (hne : fields ≠ []) (text : String) :
    ∃ notes, compile setting [.input fields, .dataLines text] =
      (notes, .ok (inStreamPlan fields text, (readData fields text).1.map some)) := by
  rw [compile, ofBody_inStream setting hn]
  have hrows : (inStreamPlan fields text).rows =
      ((readData fields text).2, .ok (some (readData fields text).1)) := by
    simp [Plan.rows, inStreamPlan, hne]
  dsimp only
  rw [hrows, hlimit]
  exact ⟨_, rfl⟩

theorem columns_inStream (text : String) :
    (inStreamPlan fields text).columns = fields.map (·.name) := by
  simp [Plan.columns, inStreamPlan, fieldVariables, Function.comp_def]

/-! ### One observation -/

/-- The table has a variable for each field, of its kind and of any length. -/
def Holds (fields : List InputField) (vs : Variables) : Prop :=
  ∀ f ∈ fields, ∃ v, vs.find? f.name = some v ∧ v.kind = f.kind ∧ v.length = none

theorem find?_fieldVariables (hn : DistinctFields fields) {f : InputField} (hf : f ∈ fields) :
    (fieldVariables fields).find? f.name = some { name := f.name, kind := f.kind } := by
  have hhas : (fieldVariables fields).Has f.name :=
    List.mem_map.mpr ⟨{ name := f.name, kind := f.kind }, List.mem_map.mpr ⟨f, hf, rfl⟩, rfl⟩
  obtain ⟨v, hv⟩ := Option.isSome_iff_exists.mp ((Variables.find?_isSome_iff _ _).mpr hhas)
  have hkey : v.key = Text.upper f.name := by simpa using List.find?_some hv
  obtain ⟨g, hg, rfl⟩ := List.mem_map.mp (List.mem_of_find?_eq_some hv)
  obtain rfl : g = f := List.inj_on_of_nodup_map hn hg hf hkey
  exact hv

theorem holds_fieldVariables (hn : DistinctFields fields) : Holds fields (fieldVariables fields) :=
  fun _ hf => ⟨_, find?_fieldVariables hn hf, rfl, rfl⟩

theorem kind_cellValue (f : InputField) (word : Option String) :
    (cellValue f word).kind = f.kind := by
  cases word with
  | none => exact Value.kind_missingOf f.kind
  | some w =>
    rw [cellValue]
    split
    · exact Value.kind_missingOf f.kind
    · split
      · rename_i hkind
        exact hkind.symm
      · rename_i hkind
        rw [hkind]
        cases Number.read? w <;> rfl

theorem fit_of_kind {v : Variable} {value : Value} (hk : value.kind = v.kind)
    (hl : v.length = none) : v.fit value = value := by
  unfold Variable.fit
  rw [hl, ← hk]
  cases value <;> rfl

theorem mem_rowOf {words : List String} {cell : String × Value} (h : cell ∈ rowOf fields words) :
    ∃ f ∈ fields, cell.1 = f.name ∧ cell.2.kind = f.kind := by
  obtain ⟨c, hc, rfl⟩ := List.mem_mapIdx.mp h
  exact ⟨fields[c], List.getElem_mem hc, rfl, kind_cellValue _ _⟩

/-- The cells of a row with distinct columns are the last ones for their names. -/
theorem lastValue?_of_mem {row : Row} (hn : (row.map fun cell => Text.upper cell.1).Nodup)
    {cell : String × Value} (h : cell ∈ row) : row.lastValue? cell.1 = some cell.2 := by
  cases hlast : row.lastValue? cell.1 with
  | none => exact absurd rfl (Row.lastValue?_eq_none_iff.mp hlast cell h)
  | some value =>
    obtain ⟨column, hm, hcolumn⟩ := Row.mem_of_lastValue? hlast
    have hcell := List.inj_on_of_nodup_map hn hm h hcolumn
    rw [← hcell]

theorem names_rowOf (words : List String) :
    (rowOf fields words).map (·.1) = fields.map (·.name) := by
  apply List.ext_getElem?
  intro c
  simp [rowOf, Function.comp_def]

theorem DistinctFields.upper_rowOf (hn : DistinctFields fields) (words : List String) :
    ((rowOf fields words).map fun cell => Text.upper cell.1).Nodup := by
  have hnames := congrArg (List.map Text.upper) (@names_rowOf fields words)
  rw [List.map_map, List.map_map] at hnames
  exact hnames ▸ hn

theorem within_rowOf {vs : Variables} (h : Holds fields vs) (words : List String) :
    (rowOf fields words).Within vs.Has := by
  intro cell hc
  obtain ⟨f, hf, hname, -⟩ := mem_rowOf hc
  obtain ⟨v, hv, -⟩ := h f hf
  rw [hname, ← Variables.find?_isSome_iff, hv]
  rfl

theorem Holds.load {vs : Variables} (h : Holds fields vs) (words : List String) :
    Holds fields (Step.load vs (some (rowOf fields words))) := by
  intro f hf
  obtain ⟨v, hv, hk, hl⟩ := h f hf
  rw [find?_load (within_rowOf h words), hv, Option.map_some]
  have hheader :
      (((rowOf fields words).lastValue? f.name).map v.reset.store |>.getD v.reset).header =
        v.header := by
    cases (rowOf fields words).lastValue? f.name with
    | none => exact v.header_reset
    | some value => exact v.header_reset
  exact ⟨_, rfl, (congrArg Header.kind hheader).trans hk, (congrArg Header.length hheader).trans hl⟩

theorem outputRow_load {step : Step} {vs : Variables} (hc : step.columns = fields.map (·.name))
    (hn : DistinctFields fields) (h : Holds fields vs) (words : List String) :
    step.outputRow (Step.load vs (some (rowOf fields words))) = rowOf fields words := by
  rw [Step.outputRow, hc, ← names_rowOf words, List.map_map]
  conv_rhs => rw [← List.map_id (rowOf fields words)]
  apply List.map_congr_left
  intro cell hcell
  obtain ⟨f, hf, hname, hkind⟩ := mem_rowOf hcell
  obtain ⟨v, hv, hk, hl⟩ := h f hf
  have hget : (Step.load vs (some (rowOf fields words))).get cell.1 = cell.2 := by
    rw [get_load (within_rowOf h words) (hname ▸ hv),
      lastValue?_of_mem (hn.upper_rowOf words) hcell]
    exact fit_of_kind (hkind.trans hk.symm) hl
  rw [Function.comp_apply, hget, id_eq]

/-! ### All observations -/

/-- A step with an INPUT statement and data lines writes a row for each line. -/
theorem runStep_inStream {setting : Setting} {table : List (List String)} {lines : List String}
    (hlimit : setting.obsLimit = none) (hn : DistinctFields fields) (hne : fields ≠ [])
    (h : List.Forall₂ Token.IsDataLine table lines) :
    ∃ log, runStep setting [.input fields,
        .dataLines (String.ofList ((lines.map String.toList).flatMap Token.dataLine))] =
      (log, .ok {
        outputs := setting.outputs.map fun r =>
          (r, { name := r.name, columns := fields.map (·.name), rows := table.map (rowOf fields) })
        errors := []
        iterations := table.length }) := by
  obtain ⟨notes, hcompile⟩ := compile_inStream hlimit hn hne
    (String.ofList ((lines.map String.toList).flatMap Token.dataLine))
  rw [readData_rows hn.nodup_names h] at hcompile
  generalize String.ofList ((lines.map String.toList).flatMap Token.dataLine) = text at hcompile ⊢
  have hc : ((inStreamPlan fields text).step setting).columns = fields.map (·.name) :=
    columns_inStream text
  have hload : ∀ vs, Holds fields vs → ∀ row ∈ table.map (rowOf fields),
      Holds fields (Step.load vs (some row)) ∧
        ((inStreamPlan fields text).step setting).outputRow (Step.load vs (some row)) = id row := by
    intro vs hv row hrow
    obtain ⟨words, -, rfl⟩ := List.mem_map.mp hrow
    exact ⟨hv.load words, outputRow_load hc hn hv words⟩
  obtain ⟨log, hrun⟩ :=
    runStep_idle hcompile (fun _ _ => rfl) rfl hload (holds_fieldVariables hn)
  rw [columns_inStream, List.map_id, List.length_map] at hrun
  exact ⟨log, hrun⟩

end StepLang.DataStep
