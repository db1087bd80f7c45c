import StepLang.Proofs.DataStep.FixedTable
import StepLang.Proofs.Dataset

/-! # The data sets of a step are rectangular and typed

The table of a step has distinct names and values of the kinds of their variables from its plan on,
and only grows at its end. So every row of an output has the planned columns, with values of the
planned kinds.
-/

namespace StepLang.DataStep

/-- A variable goes to the outputs: it is kept if any variables are, and else it is not dropped. -/
def selects (body : List StepStatement) (name : String) : Bool :=
  let kept := (bodyParts body).flatMap StepStatement.kept
  let dropped := (bodyParts body).flatMap StepStatement.dropped
  if kept = [] then dropped.all fun other => !Text.sameName other name
  else kept.any fun other => Text.sameName other name

variable {setting : Setting} {body : List StepStatement} {plan : Plan} {rows : List (Option Row)}

theorem Plan.Describes.columns_eq (h : plan.Describes setting (bodyParts body)) :
    plan.columns = (plan.vars.entries.map (·.name)).filter (selects body) := by
  unfold Plan.columns
  apply List.filter_congr
  intro name _
  simp only [selects, h.keep, h.drop, List.isEmpty_iff, List.not_any_eq_all_not]

theorem Plan.Describes.nodup_columns (h : plan.Describes setting (bodyParts body)) :
    (plan.columns.map Text.upper).Nodup := by
  have hk : (plan.vars.entries.map (·.name)).map Text.upper = plan.vars.keys := by
    rw [List.map_map]
    exact List.map_congr_left fun v _ => v.key_eq.symm
  have hn := h.vars.nodup
  rw [← hk] at hn
  rw [h.columns_eq]
  exact hn.sublist (List.filter_sublist.map _)

theorem Plan.exists_of_mem_columns {column : String} (h : column ∈ plan.columns) :
    ∃ v, plan.vars.find? column = some v := by
  obtain ⟨hm, -⟩ := List.mem_filter.mp h
  obtain ⟨v, hv, rfl⟩ := List.mem_map.mp hm
  exact Option.isSome_iff_exists.mp ((Variables.find?_isSome_iff _ _).mpr (Variables.has_name hv))

/-! ### What holds of the table all along -/

/-- A table that a planned one can become: sound, with the planned variables at its front. -/
structure Continues (vs ws : Variables) : Prop where
  sound : ws.Sound
  front : vs.headers <+: ws.headers

namespace Continues

variable {vs ws : Variables}

theorem set (h : Continues vs ws) (name : String) (value : Value) :
    Continues vs (ws.set name value) :=
  ⟨h.sound.set name value, h.front.trans (ws.headers_prefix_set name value)⟩

theorem reset (h : Continues vs ws) : Continues vs ws.reset :=
  ⟨h.sound.reset, by rw [Variables.headers_reset]; exact h.front⟩

/-- A variable has a value of its planned kind. -/
theorem kind_get (h : Continues vs ws) {name : String} {v : Variable}
    (hv : vs.find? name = some v) : (ws.get name).kind = v.kind := by
  obtain ⟨w, hw, hh⟩ := Variables.find?_header_of_prefix h.front hv
  rw [h.sound.kind_get hw]
  exact congrArg Header.kind hh

end Continues

theorem history_continues (h : plan.vars.Sound) :
    ∀ o ∈ plan.history setting body rows, Continues plan.vars o.final.vars := by
  intro o ho
  have hk := history_keeps (J := Continues plan.vars)
    (fun _ _ _ hw => load_keeps (fun _ h => h.reset) (fun cell _ v _ h => h.set cell.1 v) hw)
    (fun _ _ name _ v _ hw => hw.set name v) ⟨h, List.prefix_rfl⟩ o ho
  exact hk.2

/-- A row that an observation writes has the columns of the step in their order. -/
theorem Observation.eq_of_row? {step : Step} {o : Observation} {j : Nat} {row : Row}
    (h : o.row? step j = some row) : row = step.outputRow o.final.vars := by
  unfold row? at h
  split at h
  · cases h
  · split at h
    · exact (Option.some.inj h).symm
    · cases h

/-! ### Outputs -/

/-- The outputs of a step have the selected columns of its plan, distinct in any case of letters,
and rows with just these columns and values of the planned kinds. -/
structure Rectangular (setting : Setting) (body : List StepStatement) (plan : Plan)
    (outcome : Outcome) : Prop where
  outputs : outcome.outputs.map (·.1) = setting.outputs
  columns : ∀ out ∈ outcome.outputs,
    out.2.columns = (plan.vars.entries.map (·.name)).filter (selects body)
  distinct : ∀ out ∈ outcome.outputs, (out.2.columns.map Text.upper).Nodup
  cells : ∀ out ∈ outcome.outputs, ∀ row ∈ out.2.rows, row.map (·.1) = out.2.columns
  kinds : ∀ out ∈ outcome.outputs, ∀ row ∈ out.2.rows, ∀ cell ∈ row,
    ∃ v, plan.vars.find? cell.1 = some v ∧ cell.2.kind = v.kind

/-- What is in an output of a step: the planned columns, and rows that observations leave. -/
theorem mem_outputs {log : Log} {out : DatasetRef × Dataset}
    (h : out ∈ (execute setting body plan log rows).2.outputs) :
    out.2.columns = plan.columns ∧ ∀ row ∈ out.2.rows,
      ∃ o ∈ plan.history setting body rows, row = (plan.step setting).outputRow o.final.vars := by
  rw [execute_eq] at h
  obtain ⟨j, hj, rfl⟩ := List.mem_mapIdx.mp h
  refine ⟨rfl, fun row hr => ?_⟩
  obtain ⟨o, ho, hr⟩ := List.mem_filterMap.mp hr
  exact ⟨o, ho, Observation.eq_of_row? hr⟩

/-- The data sets of a step are made by pushing the rows of its observations one after the other. -/
theorem execute_outputs_eq {notes : List LogLine} (h : Plan.ofBody setting body = .ok (plan, notes))
    (log : Log) :
    (execute setting body plan log rows).2.outputs = setting.outputs.mapIdx fun j r =>
      (r, ((plan.history setting body rows).filterMap (·.row? (plan.step setting) j)).foldl
        Dataset.pushRow (Dataset.withColumns r.name plan.columns)) := by
  have hn := (Plan.ofBody_describes h).1.nodup_columns
  rw [execute_eq]
  refine congrArg (List.mapIdx · setting.outputs) ?_
  funext j r
  rw [Dataset.withColumns_eq r.name hn,
    Dataset.foldl_pushRow (d := { name := r.name, columns := plan.columns }) hn]
  · rfl
  · intro row hrow
    obtain ⟨o, -, ho⟩ := List.mem_filterMap.mp hrow
    rw [Observation.eq_of_row? ho, Step.outputRow, List.map_map]
    exact List.map_id _

/-- A compiled step runs, and its outputs are rectangular and typed. -/
theorem outputs_rectangular {notes : List LogLine}
    (h : compile setting body = (notes, .ok (plan, rows))) :
    ∃ log outcome, runStep setting body = (log, .ok outcome) ∧
      Rectangular setting body plan outcome := by
  obtain ⟨⟨more, hp⟩, -⟩ := of_compile h
  obtain ⟨hd, -⟩ := Plan.ofBody_describes hp
  obtain ⟨log, hrun⟩ := runStep_of_compile h
  refine ⟨log, _, hrun, ?_⟩
  constructor
  case outputs =>
    rw [execute_eq]
    apply List.ext_getElem?
    intro j
    cases hj : setting.outputs[j]? <;> simp [hj]
  case columns =>
    intro out ho
    rw [(mem_outputs ho).1, hd.columns_eq]
  case distinct =>
    intro out ho
    rw [(mem_outputs ho).1]
    exact hd.nodup_columns
  case cells =>
    intro out ho row hr
    obtain ⟨hc, hrows⟩ := mem_outputs ho
    obtain ⟨o, -, rfl⟩ := hrows row hr
    rw [hc, Step.outputRow, List.map_map]
    exact List.map_id _
  case kinds =>
    intro out ho row hr cell hm
    obtain ⟨o, hob, rfl⟩ := (mem_outputs ho).2 row hr
    obtain ⟨column, hcol, rfl⟩ := List.mem_map.mp hm
    obtain ⟨v, hv⟩ := Plan.exists_of_mem_columns hcol
    exact ⟨v, hv, (history_continues hd.vars o hob).kind_get hv⟩

/-- A step that keeps a variable, drops it too, and stores texts into numeric variables. -/
def keepCosts : List StepStatement :=
  [.set [⟨none, "visits"⟩], .keep ["COST", "total"], .drop ["cost", "who"],
    .retain [⟨"total", some (.number 0.0)⟩], .assign (.ref "total") (.ref "who"),
    .assign (.ref "cost") (.text "12")]

theorem outputs_rectangular_keep_costs : ∃ notes plan rows log outcome,
    compile (Setting.reading visits ["a", "b"]) keepCosts = (notes, .ok (plan, rows)) ∧
      runStep (Setting.reading visits ["a", "b"]) keepCosts = (log, .ok outcome) ∧
      Rectangular (Setting.reading visits ["a", "b"]) keepCosts plan outcome := by
  obtain ⟨notes, ⟨plan, rows⟩, h⟩ := exists_eq_of_isOk
    (show (compile (Setting.reading visits ["a", "b"]) keepCosts).2.isOk = true by decide +kernel)
  obtain ⟨log, outcome, hrun, hr⟩ := outputs_rectangular h
  exact ⟨notes, plan, rows, log, outcome, h, hrun, hr⟩

end StepLang.DataStep
