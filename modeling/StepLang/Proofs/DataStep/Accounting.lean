import StepLang.Proofs.DataStep.FixedTable
import StepLang.Proofs.DataStep.Marks
import StepLang.Session.Execution

/-! # Which observations a step writes

An observation is written to an output if it ends without an error and is not deleted, and either
the body has no OUTPUT statement and the observation does not stop the step, or the observation
comes to an OUTPUT statement that asks for this output.
-/

namespace StepLang.DataStep

open Exec

variable {step : Step} {n : Nat}

/-! ### Statements that end an observation or ask for an output -/

/-- The statement gives an observation up: it is DELETE, or a condition that does not hold. -/
def Discards (step : Step) (n : Nat) (s : StepStatement) (f : Frame) : Prop :=
  s = .delete ∨ ∃ c v g, s = .subset c ∧ (eval step n c).out f = (.ok v, g) ∧ v.isTrue = false

/-- Naming these outputs, or none of them, asks for the one at the place `j`. A name stands for the
first output of that name in any case of letters. -/
def Asks (outputs : List DatasetRef) (names : List String) (j : Nat) : Prop :=
  names = [] ∨ ∃ name ∈ names, (outputs.findIdx? fun r => Text.sameName r.name name) = some j

theorem isMark_flow {flow : Flow} (h : flow ≠ .next) : IsMark fun r _ => r = .ok flow where
  next _ := Iff.rfl
  error e _ := by
    refine iff_of_false (by simp) ?_
    simpa using h.symm

theorem isMark_requested (j : Nat) : IsMark fun _ f => f.requested[j]? ≠ some false where
  next h := by rw [h]
  error _ h := by rw [h]

theorem out_output (names : List String) (f : Frame) :
    (runOne step n (.output names)).out f = (.ok .next, ((request step names).out f).2) := by
  unfold runOne
  rfl

theorem leaves_plain {mark : Except Error Flow → Frame → Prop} (hmark : IsMark mark)
    {s : StepStatement} (h : s.isSimple = true) (hd : s ≠ .delete) (hs : s ≠ .stop)
    (hc : ∀ c, s ≠ .subset c) (ho : ∀ names, s ≠ .output names) :
    Leaves mark (runOne step n s) fun _ => False := by
  cases s with
  | assign target value =>
    unfold runOne
    refine (Leaves.after hmark (asksNothing_assign target value) fun _ => leaves_pure_next).congr
      fun f => by simp
  | delete => exact absurd rfl hd
  | stop => exact absurd rfl hs
  | subset c => exact absurd rfl (hc c)
  | output names => exact absurd rfl (ho names)
  | branch | iterate | loop | block => cases h
  | _ =>
    unfold runOne
    exact leaves_pure_next

theorem leaves_delete {s : StepStatement} (h : s.isSimple = true) :
    Leaves (fun r _ => r = .ok .delete) (runOne step n s) (Discards step n s) := by
  have hmark : IsMark fun r _ => r = .ok .delete := isMark_flow (by simp)
  cases s with
  | delete => exact fun f => iff_of_true rfl (Or.inr (Or.inl rfl))
  | subset c =>
    unfold runOne
    refine (Leaves.after hmark (E := fun v _ => v.isTrue = false) (asksNothing_eval c)
      fun v => ?_).congr fun f => by simp [Discards]
    cases v.isTrue with
    | true => exact leaves_pure_next.congr fun f => by simp
    | false => exact fun f => iff_of_true rfl (Or.inr rfl)
  | stop => exact fun f => by unfold runOne; simp [Discards]
  | output names => exact fun f => by rw [out_output]; simp [Discards]
  | branch | iterate | loop | block => cases h
  | _ =>
    exact (leaves_plain hmark h (by simp) (by simp) (by simp) (by simp)).congr
      fun f => by simp [Discards]

theorem leaves_stop {s : StepStatement} (h : s.isSimple = true) :
    Leaves (fun r _ => r = .ok .stop) (runOne step n s) fun _ => s = .stop := by
  have hmark : IsMark fun r _ => r = .ok .stop := isMark_flow (by simp)
  cases s with
  | stop => exact fun f => iff_of_true rfl (Or.inr rfl)
  | subset c =>
    unfold runOne
    refine (Leaves.after hmark (E := fun _ _ => False) (asksNothing_eval c)
      fun v => ?_).congr fun f => by simp
    cases v.isTrue with
    | true => exact leaves_pure_next
    | false => exact fun f => by simp
  | delete => exact fun f => by unfold runOne; simp
  | output names => exact fun f => by rw [out_output]; simp
  | branch | iterate | loop | block => cases h
  | _ =>
    exact (leaves_plain hmark h (by simp) (by simp) (by simp) (by simp)).congr fun f => by simp

theorem requested_request (names : List String) (f : Frame) (j : Nat) :
    ((request step names).out f).2.requested[j]? ≠ some false ↔
      f.requested[j]? ≠ some false ∨ Asks step.setting.outputs names j := by
  have hset (l : List Bool) (i : Nat) :
      (l.set i true)[j]? ≠ some false ↔ l[j]? ≠ some false ∨ i = j := by
    rw [List.getElem?_set]
    by_cases hij : i = j
    · subst hij
      by_cases hl : i < l.length <;> simp [hl]
    · simp [hij]
  have hfold (names : List String) (l : List Bool) :
      (names.foldl (ask step) l)[j]? ≠ some false ↔
        l[j]? ≠ some false ∨ ∃ name ∈ names, step.setting.outputIndex? name = some j := by
    induction names generalizing l with
    | nil => simp
    | cons name names ih =>
      rw [List.foldl_cons, ih, ask]
      cases hi : step.setting.outputIndex? name with
      | none => simp [hi]
      | some i =>
        dsimp only
        rw [hset]
        simp [hi, or_assoc]
  simp only [request, out_modify, Asks]
  cases names with
  | nil =>
    simp only [List.isEmpty_nil, if_true, List.getElem?_map]
    cases f.requested[j]? <;> simp
  | cons name names =>
    simp only [List.isEmpty_cons, Bool.false_eq_true, if_false, reduceCtorEq, false_or]
    exact hfold (name :: names) f.requested

theorem leaves_requested (j : Nat) {s : StepStatement} (h : s.isSimple = true) :
    Leaves (fun _ f => f.requested[j]? ≠ some false) (runOne step n s) fun _ =>
      ∃ names, s = .output names ∧ Asks step.setting.outputs names j := by
  have hmark := isMark_requested j
  cases s with
  | output names =>
    intro f
    rw [out_output]
    exact (requested_request names f j).trans (or_congr_right (by simp))
  | subset c =>
    unfold runOne
    refine (Leaves.after hmark (E := fun _ _ => False) (asksNothing_eval c)
      fun v => ?_).congr fun f => by simp
    cases v.isTrue <;> exact fun f => by simp
  | delete | stop => exact fun f => by unfold runOne; simp
  | branch | iterate | loop | block => cases h
  | _ =>
    exact (leaves_plain hmark h (by simp) (by simp) (by simp) (by simp)).congr fun f => by simp

/-! ### Observations -/

section Observations

variable {body : List StepStatement} {o : Observation} {vs : Variables} {rows : List (Option Row)}

/-- The observation comes to the statement, which then starts in the frame. -/
def Observation.ComesTo (step : Step) (body : List StepStatement) (o : Observation)
    (s : StepStatement) (f : Frame) : Prop :=
  Reaches step o.number (.all body) o.start s f

/-- An observation bears a mark exactly if it bears it from its start on or comes to a statement
that leaves it. -/
theorem mark_iff_of_mem_history {mark : Except Error Flow → Frame → Prop} (hmark : IsMark mark)
    {Hit : StepStatement → Frame → Prop} (ho : o ∈ step.history body n vs rows)
    (hs : ∀ s : StepStatement, s.isSimple = true →
      Leaves mark (runOne step o.number s) (Hit s)) :
    mark o.result o.final ↔ mark (.ok .next) o.start ∨
      ∃ s f, o.ComesTo step body s f ∧ s.isSimple = true ∧ Hit s f := by
  have h := (Fragment.all body).leaves_run hmark hs o.start
  obtain ⟨ws, row, -, he⟩ := exists_of_mem_history ho
  have hout : (runAll step o.number body).out o.start = (o.result, o.final) := by
    rw [he]
    exact process_out step body _ ws row
  rw [show (Fragment.all body).run step o.number = runAll step o.number body from rfl, hout] at h
  exact h

/-- An observation is given up exactly if it comes to a statement that gives it up. -/
theorem delete_iff_of_mem_history (ho : o ∈ step.history body n vs rows) :
    o.result = .ok .delete ↔ ∃ s f, o.ComesTo step body s f ∧ Discards step o.number s f := by
  have h := mark_iff_of_mem_history (isMark_flow (by simp)) ho fun _ => leaves_delete
  simp only [Except.ok.injEq, reduceCtorEq, false_or] at h
  rw [h]
  constructor
  · rintro ⟨s, f, hr, -, hd⟩
    exact ⟨s, f, hr, hd⟩
  · rintro ⟨s, f, hr, hd⟩
    refine ⟨s, f, hr, ?_, hd⟩
    rcases hd with rfl | ⟨c, v, g, rfl, -⟩ <;> rfl

theorem stop_iff_of_mem_history (ho : o ∈ step.history body n vs rows) :
    o.result = .ok .stop ↔ ∃ f, o.ComesTo step body .stop f := by
  have h := mark_iff_of_mem_history (isMark_flow (by simp)) ho fun _ => leaves_stop
  simp only [Except.ok.injEq, reduceCtorEq, false_or] at h
  rw [h]
  constructor
  · rintro ⟨s, f, hr, -, rfl⟩
    exact ⟨f, hr⟩
  · rintro ⟨f, hr⟩
    exact ⟨_, f, hr, rfl, rfl⟩

/-- An output is asked for at the end of an observation exactly if the observation comes to an
OUTPUT statement that asks for it. -/
theorem requested_iff_of_mem_history (ho : o ∈ step.history body n vs rows) {j : Nat}
    (hj : j < step.setting.outputs.length) :
    o.final.requested[j]? = some true ↔
      ∃ names f, o.ComesTo step body (.output names) f ∧ Asks step.setting.outputs names j := by
  have h := mark_iff_of_mem_history (isMark_requested j) ho fun _ => leaves_requested j
  obtain ⟨ws, row, -, he⟩ := exists_of_mem_history ho
  have hstart : o.start.requested[j]? = some false := by
    rw [he]
    simp [Step.process, hj]
  have hfinal : j < o.final.requested.length := by
    rw [he, length_requested_process]
    exact hj
  have htrue : o.final.requested[j]? = some true ↔ o.final.requested[j]? ≠ some false := by
    rw [List.getElem?_eq_getElem hfinal]
    cases o.final.requested[j] <;> simp
  rw [htrue, h, hstart, or_iff_right (by simp)]
  constructor
  · rintro ⟨s, f, hr, -, names, rfl, ha⟩
    exact ⟨names, f, hr, ha⟩
  · rintro ⟨names, f, hr, ha⟩
    exact ⟨_, f, hr, rfl, names, rfl, ha⟩

/-- The observation is to be written to the output at the place `j`. -/
def Observation.Writes (outputs : List DatasetRef) (step : Step) (body : List StepStatement)
    (o : Observation) (j : Nat) : Prop :=
  ∃ flow, o.result = .ok flow ∧ flow ≠ .delete ∧
    ((∀ s ∈ bodyParts body, s.isOutput = false) ∧ flow ≠ .stop ∨
      ∃ names f, o.ComesTo step body (.output names) f ∧ Asks outputs names j)

theorem row?_iff_writes (hx : step.explicitOutput = (bodyParts body).any StepStatement.isOutput)
    (ho : o ∈ step.history body n vs rows) {j : Nat} (hj : j < step.setting.outputs.length)
    (r : Row) :
    o.row? step j = some r ↔
      o.Writes step.setting.outputs step body j ∧ r = step.outputRow o.final.vars := by
  have hasks := requested_iff_of_mem_history ho hj
  have hlen : j < o.final.requested.length := by
    obtain ⟨ws, row, -, he⟩ := exists_of_mem_history ho
    rw [he, length_requested_process]
    exact hj
  have hnone : (∀ s ∈ bodyParts body, s.isOutput = false) ↔ step.explicitOutput = false := by
    rw [hx, List.any_eq_false]
    simp
  have hwrites (flow : Flow) (hf : o.result = .ok flow) :
      (step.written flow o.final.requested)[j]? = some true ↔
        o.Writes step.setting.outputs step body j := by
    simp only [Observation.Writes, hf, Except.ok.injEq, exists_eq_left', ← hasks, hnone]
    cases flow with
    | delete =>
      simp only [Step.written, List.getElem?_map]
      cases o.final.requested[j]? <;> simp
    | stop => simp [Step.written]
    | next =>
      simp only [Step.written]
      cases step.explicitOutput with
      | true => simp
      | false =>
        simp only [Bool.false_eq_true, if_false, List.getElem?_map, List.getElem?_eq_getElem hlen]
        simp
  rw [Observation.row?]
  cases hf : o.result with
  | error e => simp [Observation.Writes, hf]
  | ok flow =>
    dsimp only
    rw [← hwrites flow hf]
    split
    · next hw => simp [hw, eq_comm]
    · next hw => simp [hw]

end Observations

/-! ### The observations that are processed -/

theorem Observation.stops_iff (o : Observation) : o.stops = true ↔ o.result = .ok .stop := by
  unfold stops
  split
  · next h => simp [h]
  · next h => simpa using h

section Processed

variable (step : Step) (body : List StepStatement)

theorem exists_of_getElem?_history {n : Nat} {vs : Variables} {rows : List (Option Row)} {i : Nat}
    {o : Observation} (h : (step.history body n vs rows)[i]? = some o) :
    ∃ ws row, rows[i]? = some row ∧ o = step.process body (n + i) ws row := by
  induction rows generalizing n vs i with
  | nil => simp [Step.history] at h
  | cons row rows ih =>
    rw [Step.history] at h
    cases i with
    | zero =>
      refine ⟨vs, row, rfl, ?_⟩
      split at h <;> exact (Option.some.inj h).symm
    | succ i =>
      split at h
      · simp at h
      · obtain ⟨ws, row', hr, ho⟩ := ih h
        exact ⟨ws, row', hr, by rw [ho, Nat.add_right_comm, Nat.add_assoc]⟩

theorem lt_length_history_iff (n : Nat) (vs : Variables) (rows : List (Option Row)) (i : Nat) :
    i < (step.history body n vs rows).length ↔ i < rows.length ∧
      ∀ k < i, ∀ o, (step.history body n vs rows)[k]? = some o → o.result ≠ .ok .stop := by
  induction rows generalizing n vs i with
  | nil => simp [Step.history]
  | cons row rows ih =>
    rw [Step.history]
    have hstop := (step.process body n vs row).stops_iff
    generalize step.process body n vs row = o at hstop ⊢
    cases hs : o.stops with
    | true =>
      simp only [if_true, List.length_cons, List.length_nil]
      constructor
      · intro hi
        refine ⟨by omega, fun k hk => by omega⟩
      · rintro ⟨-, hall⟩
        rcases i with _ | i
        · omega
        · exact absurd (hstop.mp hs) (hall 0 (by omega) o rfl)
    | false =>
      simp only [Bool.false_eq_true, if_false, List.length_cons]
      have ho : o.result ≠ .ok .stop := fun h => by simp [hstop.mpr h] at hs
      cases i with
      | zero => simp
      | succ i =>
        rw [Nat.add_lt_add_iff_right, Nat.add_lt_add_iff_right, ih]
        refine and_congr_right fun _ => ⟨fun h k hk o' ho' => ?_, fun h k hk o' ho' => ?_⟩
        · rcases k with _ | k
          · obtain rfl := Option.some.inj ho'
            exact ho
          · exact h k (by omega) o' ho'
        · exact h (k + 1) (by omega) o' ho'

end Processed

/-- What a step does with observations: which rows it processes, what it writes of them to which
output, and what it counts. -/
structure Accounted (outputs : List DatasetRef) (step : Step) (body : List StepStatement)
    (rows : List (Option Row)) (hist : List Observation) (outcome : Outcome) : Prop where
  /-- The observations are made on the rows in their order. -/
  order : ∀ i o, hist[i]? = some o →
    ∃ vs row, rows[i]? = some row ∧ o = step.process body (i + 1) vs row
  /-- A row is processed exactly if no observation before it ended in STOP. -/
  processed : ∀ i, i < hist.length ↔ i < rows.length ∧
    ∀ k < i, ∀ o, hist[k]? = some o → o.result ≠ .ok .stop
  stopped : ∀ o ∈ hist, o.result = .ok .stop ↔ ∃ f, o.ComesTo step body .stop f
  deleted : ∀ o ∈ hist, o.result = .ok .delete ↔
    ∃ s f, o.ComesTo step body s f ∧ Discards step o.number s f
  /-- The rows of an output come from the observations in their order, at most one from each. -/
  collected : ∀ j r, outputs[j]? = some r → ∃ d, outcome.outputs[j]? = some (r, d) ∧
    d.rows = hist.filterMap (·.row? step j)
  /-- An observation gives a row to an output exactly if it is to be written to it, and then its
  last values. -/
  written : ∀ j < outputs.length, ∀ o ∈ hist, ∀ row, o.row? step j = some row ↔
    o.Writes outputs step body j ∧ row = step.columns.map fun c => (c, o.final.vars.get c)
  noOther : outcome.outputs.length = outputs.length
  errors : outcome.errors = hist.filterMap Observation.error?
  iterations : outcome.iterations = hist.length

/-- A planned step accounts for its observations on any rows, so also on those that it reads;
`_NULL_` is none of its outputs. If no statement gives it rows, there is one observation. -/
theorem output_accounting (s : Session) (outputs : List DatasetRef) {body : List StepStatement}
    {plan : Plan} {notes : List LogLine}
    (h : Plan.ofBody (Action.stepSetting s outputs) body = .ok (plan, notes)) :
    (∀ log rows, Accounted (outputs.filter (! ·.isNull)) (plan.step (Action.stepSetting s outputs))
      body rows (plan.history (Action.stepSetting s outputs) body rows)
      (execute (Action.stepSetting s outputs) body plan log rows).2) ∧
    (∀ more rows, compile (Action.stepSetting s outputs) body = (more, .ok (plan, rows)) →
      ∃ log, runStep (Action.stepSetting s outputs) body =
        (log, .ok (execute (Action.stepSetting s outputs) body plan more.toArray rows).2)) ∧
    ((bodyParts body).all (! ·.isInput) = true →
      (compile (Action.stepSetting s outputs) body).2 = .ok (plan, [none])) := by
  obtain ⟨hd, -⟩ := Plan.ofBody_describes h
  refine ⟨fun log rows => ?_, fun more rows hc => runStep_of_compile hc, fun hn => ?_⟩
  · rw [execute_eq]
    constructor
    case order =>
      intro i o ho
      rw [Nat.add_comm]
      exact exists_of_getElem?_history _ body ho
    case processed => exact lt_length_history_iff _ body 1 plan.vars rows
    case stopped => exact fun o => stop_iff_of_mem_history
    case deleted => exact fun o => delete_iff_of_mem_history
    case collected =>
      intro j r hr
      refine ⟨{ name := r.name, columns := plan.columns, rows := _ }, ?_, rfl⟩
      rw [List.getElem?_mapIdx, show (Action.stepSetting s outputs).outputs[j]? = some r from hr]
      rfl
    case written => exact fun j hj o ho row => row?_iff_writes hd.output ho hj row
    case noOther => simp [Action.stepSetting]
    case errors => rfl
    case iterations => rfl
  · have hrows : plan.rows = (plan.rows.1, .ok none) := Prod.ext rfl (hd.rows_of_noInput hn)
    rw [compile, h]
    dsimp only
    rw [hrows]
    rfl

/-- Every pass of a loop asks for one of two outputs, and a condition may give the observation
up. -/
def share : List StepStatement :=
  [.iterate "i" (.number 1.0) (.ref "_n_") none
      [.branch (.ref "i") (.output ["many"]) (.otherwise (.block [.output ["few"], .stop]))],
    .subset (.ref "who")]

def shareOutputs : List DatasetRef :=
  [⟨none, "few"⟩, ⟨none, "_null_"⟩, ⟨none, "many"⟩]

theorem output_accounting_share :
    shareOutputs.filter (! ·.isNull) = [⟨none, "few"⟩, ⟨none, "many"⟩] ∧
      ∃ plan notes, Plan.ofBody (Action.stepSetting {} shareOutputs) share = .ok (plan, notes) ∧
        (∀ log rows, Accounted (shareOutputs.filter (! ·.isNull))
          (plan.step (Action.stepSetting {} shareOutputs)) share rows
          (plan.history (Action.stepSetting {} shareOutputs) share rows)
          (execute (Action.stepSetting {} shareOutputs) share plan log rows).2) ∧
        (compile (Action.stepSetting {} shareOutputs) share).2 = .ok (plan, [none]) := by
  have hok : (Plan.ofBody (Action.stepSetting {} shareOutputs) share).isOk = true := by
    decide +kernel
  obtain ⟨⟨plan, notes⟩, h⟩ := exists_eq_ok hok
  obtain ⟨haccounted, -, honce⟩ := output_accounting {} shareOutputs h
  exact ⟨by decide +kernel, plan, notes, h, haccounted, honce (by decide +kernel)⟩

end StepLang.DataStep
