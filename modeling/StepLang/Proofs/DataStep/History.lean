import StepLang.Proofs.DataStep.Simulation

/-! # The history of a step

The history of a step is the list of its observations, each with the frames in which its statements
start and end. What a step leaves is read off its history.
-/

namespace StepLang.DataStep

open Exec

/-- What the statements of an observation do: the frame in which they start, how they end, and the
frame that they leave. The logs of the frames hold the lines of this observation only. -/
structure Observation where
  number : Nat
  start : Frame
  result : Except Error Flow
  final : Frame

namespace Observation

/-- The error at which the observation was given up. -/
def error? (o : Observation) : Option Error :=
  match o.result with
  | .error e => some e
  | .ok _ => none

def stops (o : Observation) : Bool :=
  match o.result with
  | .ok .stop => true
  | _ => false

/-- The row that the observation writes to the output at a place. -/
def row? (step : Step) (o : Observation) (j : Nat) : Option Row :=
  match o.result with
  | .error _ => none
  | .ok flow =>
    if (step.written flow o.final.requested)[j]? = some true then some (step.outputRow o.final.vars)
    else none

def lines (o : Observation) : Log :=
  match o.result with
  | .error e => o.final.log.push ⟨.error, s!"ERROR: {e.message} (_N_={o.number})"⟩
  | .ok _ => o.final.log

end Observation

namespace Step

variable (step : Step) (body : List StepStatement)

/-- Runs the statements of the observation with number `n`, where the observation before it left
the variables. -/
def process (n : Nat) (vs : Variables) (row : Option Row) : Observation :=
  let start : Frame := ⟨load vs row, step.setting.outputs.map fun _ => false, #[]⟩
  let (result, final) := (runAll step n body).out start
  ⟨n, start, result, final⟩

/-- The observations on rows from the one with number `n` on, up to the first that stops the step
and with it. -/
def history (n : Nat) (vs : Variables) : List (Option Row) → List Observation
  | [] => []
  | row :: rows =>
    let o := step.process body n vs row
    if o.stops then [o] else o :: history (n + 1) o.final.vars rows

def Progress.add (p : Progress) (o : Observation) : Progress where
  rows :=
    match o.result with
    | .error _ => p.rows
    | .ok flow =>
      List.zipWith (fun (wanted : Bool) rows => if wanted then step.outputRow o.final.vars :: rows
        else rows) (step.written flow o.final.requested) p.rows
  errors := o.error?.toList ++ p.errors
  vars := o.final.vars
  log := p.log ++ o.lines
  count := p.count + 1

end Step

variable {step : Step} {body : List StepStatement}

/-! ### Frames -/

/-- A run does not look at the log, and only adds lines to it. -/
theorem out_runAll_log (step : Step) (n : Nat) (body : List StepStatement) (vs : Variables)
    (requested : List Bool) (log : Log) :
    (runAll step n body).out ⟨vs, requested, log⟩ =
      (((runAll step n body).out ⟨vs, requested, #[]⟩).1,
        { ((runAll step n body).out ⟨vs, requested, #[]⟩).2 with
          log := log ++ ((runAll step n body).out ⟨vs, requested, #[]⟩).2.log }) := by
  have h : Respects (fun f g => f.vars = g.vars ∧ f.requested = g.requested ∧ f.log = log ++ g.log)
      (runAll step n body) := by
    apply (Fragment.all body).run_respects
    · refine Respects.eval (fun f g h => by rw [h.1]) fun f g lines h => ⟨h.1, h.2.1, ?_⟩
      apply Array.toList_inj.mp
      simp [h.2.2]
    · rintro names f g ⟨hv, hr, hl⟩
      simp only [request, out_modify]
      split <;> simp [hv, hr, hl]
    · rintro s - name - v f g ⟨hv, hr, hl⟩
      exact ⟨rfl, by simp [hv], hr, hl⟩
    · rintro s - index - f g ⟨hv, -⟩
      rw [hv]
  obtain ⟨he, hv, hr, hl⟩ := h (f := ⟨vs, requested, log⟩) (g := ⟨vs, requested, #[]⟩)
    ⟨rfl, rfl, by simp⟩
  refine Prod.ext he ?_
  generalize ((runAll step n body).out ⟨vs, requested, log⟩).2 = f at hv hr hl ⊢
  obtain ⟨vars, requested', log'⟩ := f
  simp only at hv hr hl ⊢
  rw [hv, hr, hl]

theorem length_requested_out (step : Step) (n : Nat) (body : List StepStatement) (f : Frame) :
    ((runAll step n body).out f).2.requested.length = f.requested.length := by
  have hask (names : List String) (requested : List Bool) :
      (names.foldl (ask step) requested).length = requested.length := by
    induction names generalizing requested with
    | nil => rfl
    | cons name names ih =>
      rw [List.foldl_cons, ih, ask]
      split <;> simp
  have h : Keeps (fun g => g.requested.length = f.requested.length) (runAll step n body) := by
    refine (Fragment.all body).run_keeps ?_ ?_ ?_
    · exact fun e => keeps_eval (fun _ _ h => h) e
    · intro names g hg
      simp only [request, out_modify]
      split
      · simpa using hg
      · exact (hask names g.requested).trans hg
    · exact fun _ _ _ _ _ _ hg => hg
  exact h rfl

/-! ### Observations -/

section Observe

variable (step body)

theorem process_out (n : Nat) (vs : Variables) (row : Option Row) :
    (runAll step n body).out (step.process body n vs row).start =
      ((step.process body n vs row).result, (step.process body n vs row).final) :=
  rfl

theorem length_requested_process (n : Nat) (vs : Variables) (row : Option Row) :
    (step.process body n vs row).final.requested.length = step.setting.outputs.length := by
  have h : ((runAll step n body).out (step.process body n vs row).start).2.requested.length = _ :=
    length_requested_out step n body _
  rw [process_out] at h
  exact h.trans (List.length_map ..)

/-- An observation adds to what a step has done, and lets it go on unless it stops it. -/
theorem observe_eq (p : Step.Progress) (row : Option Row) :
    step.observe body p row =
      (p.add step (step.process body (p.count + 1) p.vars row),
        !(step.process body (p.count + 1) p.vars row).stops) := by
  have h := out_runAll_log step (p.count + 1) body (Step.load p.vars row)
    (step.setting.outputs.map fun _ => false) p.log
  simp only [Step.observe]
  rw [show (runAll step (p.count + 1) body).run.run _ = _ from h]
  have ho := process_out step body (p.count + 1) p.vars row
  rw [show (runAll step (p.count + 1) body).out
    ⟨Step.load p.vars row, step.setting.outputs.map fun _ => false, #[]⟩ = _ from ho]
  have hn : (step.process body (p.count + 1) p.vars row).number = p.count + 1 := rfl
  generalize step.process body (p.count + 1) p.vars row = o at hn ⊢
  obtain ⟨number, start, result, final⟩ := o
  cases result with
  | error e =>
    simp only at hn
    subst hn
    simp [Step.Progress.add, Observation.error?, Observation.stops, Observation.lines]
  | ok flow =>
    cases flow <;>
      simp [Step.Progress.add, Observation.error?, Observation.stops, Observation.lines]

/-- Running observations adds the history to what a step has done. -/
theorem observeAll_eq (p : Step.Progress) (rows : List (Option Row)) :
    step.observeAll body p rows =
      (step.history body (p.count + 1) p.vars rows).foldl (Step.Progress.add step) p := by
  induction rows generalizing p with
  | nil => rfl
  | cons row rows ih =>
    simp only [Step.observeAll, Step.history]
    rw [observe_eq]
    generalize step.process body (p.count + 1) p.vars row = o
    cases hs : o.stops with
    | true => simp
    | false =>
      simp only [Bool.not_false, Bool.false_eq_true, if_false, List.foldl_cons]
      exact ih (p.add step o)

end Observe

/-! ### What is read off a history -/

section Read

variable (step : Step)

/-- What the observations of a history leave of a step. -/
theorem foldl_add_eq (hist : List Observation) (p : Step.Progress) :
    (hist.foldl (Step.Progress.add step) p).errors =
        (hist.filterMap Observation.error?).reverse ++ p.errors ∧
      (hist.foldl (Step.Progress.add step) p).count = p.count + hist.length := by
  induction hist generalizing p with
  | nil => simp
  | cons o hist ih =>
    obtain ⟨he, hc⟩ := ih (p.add step o)
    rw [List.foldl_cons, he, hc]
    constructor
    · simp only [Step.Progress.add, List.filterMap_cons]
      cases o.error? <;> simp
    · simp only [Step.Progress.add, List.length_cons]
      omega

theorem getElem?_rows_add (p : Step.Progress) {o : Observation}
    (ho : o.final.requested.length = p.rows.length) (j : Nat) :
    (p.add step o).rows[j]? = p.rows[j]?.map ((o.row? step j).toList ++ ·) := by
  have hw (flow : Flow) : (step.written flow o.final.requested).length = p.rows.length := by
    rw [← ho]
    cases flow <;> simp only [Step.written] <;> (try split) <;> simp
  obtain ⟨number, start, result, final⟩ := o
  cases result with
  | error e =>
    simp [Step.Progress.add, Observation.row?]
  | ok flow =>
    simp only [Step.Progress.add, Observation.row?, List.getElem?_zipWith]
    have hw := hw flow
    simp only at hw
    generalize step.written flow final.requested = wanted at hw ⊢
    cases hr : p.rows[j]? with
    | none => cases wanted[j]? <;> rfl
    | some rows =>
      have hj : j < wanted.length := by
        rw [hw]
        exact (List.getElem?_eq_some_iff.mp hr).1
      rw [List.getElem?_eq_getElem hj]
      cases wanted[j] <;> simp

theorem length_rows_add (p : Step.Progress) {o : Observation}
    (ho : o.final.requested.length = p.rows.length) :
    (p.add step o).rows.length = p.rows.length := by
  apply Nat.le_antisymm
  · have := getElem?_rows_add step p ho p.rows.length
    simpa using this
  · have := getElem?_rows_add step p ho (p.add step o).rows.length
    simpa using this.symm

/-- The rows of an output are those that the observations write to it, the last one first. -/
theorem getElem?_rows_foldl {hist : List Observation} (p : Step.Progress)
    (ho : ∀ o ∈ hist, o.final.requested.length = p.rows.length) (j : Nat) :
    (hist.foldl (Step.Progress.add step) p).rows[j]? =
      p.rows[j]?.map ((hist.filterMap (·.row? step j)).reverse ++ ·) := by
  induction hist generalizing p with
  | nil => simp
  | cons o hist ih =>
    have hl := length_rows_add step p (ho o List.mem_cons_self)
    rw [List.foldl_cons, ih (p.add step o) fun o' h => by rw [hl, ho o' (List.mem_cons_of_mem _ h)],
      getElem?_rows_add step p (ho o List.mem_cons_self)]
    cases p.rows[j]? with
    | none => rfl
    | some rows => cases hr : o.row? step j <;> simp [hr]

end Read

theorem exists_of_mem_history {o : Observation} {n : Nat} {vs : Variables}
    {rows : List (Option Row)} (h : o ∈ step.history body n vs rows) :
    ∃ ws, ∃ row ∈ rows, o = step.process body o.number ws row := by
  induction rows generalizing n vs with
  | nil => cases h
  | cons row rows ih =>
    rw [Step.history] at h
    split at h
    · obtain rfl := List.mem_singleton.mp h
      exact ⟨vs, row, List.mem_cons_self, rfl⟩
    · rcases List.mem_cons.mp h with rfl | h
      · exact ⟨vs, row, List.mem_cons_self, rfl⟩
      · obtain ⟨ws, row', hr, ho⟩ := ih h
        exact ⟨ws, row', List.mem_cons_of_mem _ hr, ho⟩

/-! ### What every observation keeps -/

section Keeps

variable {J : Variables → Prop}

/-- What resetting and storing the cells of a row keep true, loading the row keeps true. -/
theorem load_keeps {row : Option Row} (hr : ∀ vs, J vs → J vs.reset)
    (hc : ∀ cell ∈ row.getD [], ∀ v vs, J vs → J (vs.set cell.1 v)) {vs : Variables} (h : J vs) :
    J (Step.load vs row) := by
  unfold Step.load
  have h := hr vs h
  generalize vs.reset = ws at h ⊢
  generalize row.getD [] = cells at hc ⊢
  induction cells generalizing ws with
  | nil => exact h
  | cons cell cells ih =>
    exact ih _ (hc cell List.mem_cons_self cell.2 ws h) fun c hm =>
      hc c (List.mem_cons_of_mem _ hm)

/-- What loading rows and storing into the targets of a body keep true of the variables is true
when the statements of an observation start and when they end. -/
theorem history_keeps {n : Nat} {vs : Variables} {rows : List (Option Row)}
    (hl : ∀ row ∈ rows, ∀ ws, J ws → J (Step.load ws row))
    (hs : ∀ s ∈ bodyParts body, ∀ name ∈ s.targets step.arrays, ∀ v ws, J ws → J (ws.set name v))
    (hv : J vs) : ∀ o ∈ step.history body n vs rows, J o.start.vars ∧ J o.final.vars := by
  have hp (n : Nat) {row : Option Row} (ws : Variables) (h : J (Step.load ws row)) :
      J (step.process body n ws row).final.vars :=
    (Fragment.all body).run_keeps_vars hs h
  induction rows generalizing n vs with
  | nil => simp [Step.history]
  | cons row rows ih =>
    have hstart : J (Step.load vs row) := hl row List.mem_cons_self vs hv
    have hfinal := hp n vs hstart
    intro o ho
    rw [Step.history] at ho
    split at ho
    · obtain rfl := List.mem_singleton.mp ho
      exact ⟨hstart, hfinal⟩
    · rcases List.mem_cons.mp ho with rfl | ho
      · exact ⟨hstart, hfinal⟩
      · exact ih (fun r hr => hl r (List.mem_cons_of_mem _ hr)) hfinal o ho

end Keeps

/-! ### Planned steps -/

def Plan.history (setting : Setting) (body : List StepStatement) (plan : Plan)
    (rows : List (Option Row)) : List Observation :=
  (plan.step setting).history body 1 plan.vars rows

/-- The outcome of a step is read off its history. -/
theorem execute_eq (setting : Setting) (body : List StepStatement) (plan : Plan) (log : Log)
    (rows : List (Option Row)) :
    (execute setting body plan log rows).2 =
      { outputs := setting.outputs.mapIdx fun j r =>
          (r, { name := r.name, columns := plan.columns,
                rows := (plan.history setting body rows).filterMap (·.row? (plan.step setting) j) })
        errors := (plan.history setting body rows).filterMap Observation.error?
        iterations := (plan.history setting body rows).length } := by
  have hp : (plan.step setting).observeAll body (plan.start setting log) rows =
      (plan.history setting body rows).foldl (Step.Progress.add (plan.step setting))
        (plan.start setting log) :=
    observeAll_eq (plan.step setting) body (plan.start setting log) rows
  have hlen : ∀ o ∈ plan.history setting body rows,
      o.final.requested.length = (plan.start setting log).rows.length := by
    intro o ho
    obtain ⟨ws, row, -, ho⟩ := exists_of_mem_history ho
    rw [ho, length_requested_process]
    exact (List.length_map ..).symm
  obtain ⟨he, hc⟩ := foldl_add_eq (plan.step setting) (plan.history setting body rows)
    (plan.start setting log)
  simp only [execute, Outcome.mk.injEq]
  rw [hp]
  refine ⟨List.ext_getElem? fun j => ?_, ?_, ?_⟩
  · rw [List.getElem?_zipWith, getElem?_rows_foldl _ _ hlen, List.getElem?_mapIdx]
    simp only [Plan.start, List.getElem?_map]
    cases setting.outputs[j]? with
    | none => rfl
    | some r => simp [Plan.step]
  · rw [he, List.reverse_append, List.reverse_reverse]
    rfl
  · rw [hc]
    exact Nat.zero_add _

theorem runStep_of_compile {setting : Setting} {notes : List LogLine} {plan : Plan}
    {rows : List (Option Row)} (h : compile setting body = (notes, .ok (plan, rows))) :
    ∃ log, runStep setting body =
      (log, .ok (execute setting body plan notes.toArray rows).2) := by
  rw [runStep, h]
  exact ⟨_, rfl⟩

/-! ### Statements that do nothing -/

section Idle

variable {J : Variables → Prop} {rows : List Row} {written : Row → Row}

/-- The observation of a row whose statements leave the frame as it is. -/
def Step.idle (step : Step) (n : Nat) (vs : Variables) (row : Row) : Observation :=
  let frame : Frame := ⟨load vs (some row), step.setting.outputs.map fun _ => false, #[]⟩
  ⟨n, frame, .ok .next, frame⟩

theorem history_idle_cons (hidle : ∀ n f, (runAll step n body).out f = (.ok .next, f)) (n : Nat)
    (vs : Variables) (row : Row) (rows : List (Option Row)) :
    step.history body n vs (some row :: rows) =
      step.idle n vs row :: step.history body (n + 1) (Step.load vs (some row)) rows := by
  have hprocess : step.process body n vs (some row) = step.idle n vs row := by
    simp only [Step.process, hidle]
    rfl
  rw [Step.history, hprocess]
  rfl

theorem row?_idle (ho : step.explicitOutput = false) (n : Nat) (vs : Variables) (row : Row)
    {j : Nat} (hj : j < step.setting.outputs.length) :
    (step.idle n vs row).row? step j = some (step.outputRow (Step.load vs (some row))) := by
  simp [Observation.row?, Step.idle, Step.written, ho, hj]

/-- If the statements do nothing, every row is written to every output as it is loaded, and none
fails. -/
theorem history_idle (hidle : ∀ n f, (runAll step n body).out f = (.ok .next, f))
    (ho : step.explicitOutput = false)
    (hload : ∀ vs, J vs → ∀ row ∈ rows, J (Step.load vs (some row)) ∧
      step.outputRow (Step.load vs (some row)) = written row)
    (n : Nat) {vs : Variables} (h : J vs) :
    (step.history body n vs (rows.map some)).filterMap Observation.error? = [] ∧
      (step.history body n vs (rows.map some)).length = rows.length ∧
      ∀ j < step.setting.outputs.length,
        (step.history body n vs (rows.map some)).filterMap (·.row? step j) = rows.map written := by
  induction rows generalizing n vs with
  | nil => exact ⟨rfl, rfl, fun _ _ => rfl⟩
  | cons row rows ih =>
    obtain ⟨hnext, hrow⟩ := hload vs h row List.mem_cons_self
    obtain ⟨herrors, hlength, hrows⟩ :=
      ih (fun vs hv row hr => hload vs hv row (List.mem_cons_of_mem _ hr)) (n + 1) hnext
    rw [List.map_cons, List.map_cons, history_idle_cons hidle]
    refine ⟨herrors, congrArg (· + 1) hlength, fun j hj => ?_⟩
    rw [List.filterMap_cons, row?_idle ho n vs row hj, hrow, hrows j hj]

/-- A step whose statements do nothing writes each row that it reads to every output. -/
theorem runStep_idle {setting : Setting} {notes : List LogLine} {plan : Plan}
    (hcompile : compile setting body = (notes, .ok (plan, rows.map some)))
    (hidle : ∀ n f, (runAll (plan.step setting) n body).out f = (.ok .next, f))
    (ho : plan.explicitOutput = false)
    (hload : ∀ vs, J vs → ∀ row ∈ rows, J (Step.load vs (some row)) ∧
      (plan.step setting).outputRow (Step.load vs (some row)) = written row)
    (h : J plan.vars) :
    ∃ log, runStep setting body = (log, .ok {
      outputs := setting.outputs.map fun r =>
        (r, { name := r.name, columns := plan.columns, rows := rows.map written })
      errors := []
      iterations := rows.length }) := by
  obtain ⟨log, hrun⟩ := runStep_of_compile hcompile
  obtain ⟨herrors, hlength, hrows⟩ := history_idle hidle ho hload 1 h
  refine ⟨log, hrun.trans ?_⟩
  rw [execute_eq, Plan.history, herrors, hlength]
  congr 3
  apply List.ext_getElem
  · simp
  · intro j hj _
    have hj : j < setting.outputs.length := by simpa using hj
    rw [List.getElem_mapIdx, List.getElem_map, hrows j hj]

end Idle

end StepLang.DataStep
