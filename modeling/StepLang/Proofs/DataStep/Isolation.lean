import StepLang.Proofs.DataStep.FixedTable

/-! # What one observation leaves to the next

The next observation starts from the table and the retained values only. A counter that comes in
while a step runs stays behind the planned variables, where no statement reads it; so without
retained variables every observation does what it would do alone.
-/

namespace StepLang

namespace DataStep

open Exec

/-! ### Counters behind a table -/

/-- The second table is the first one with counters behind it. -/
def WithCounters (base vs : Variables) : Prop :=
  ∃ extra, vs = ⟨base.entries ++ extra⟩ ∧ ∀ v ∈ extra, isCounter v.name = true

namespace WithCounters

variable {base vs : Variables} {name : String}

theorem refl (vs : Variables) : WithCounters vs vs :=
  ⟨[], by simp, by simp⟩

/-- A counter is not found by another name, nor if the first table has a variable of the name. -/
theorem get (h : WithCounters base vs) (hn : base.Has name ∨ isCounter name = false) :
    vs.get name = base.get name := by
  obtain ⟨extra, rfl, hc⟩ := h
  apply Variables.get_append
  refine hn.imp_right fun hn v hv hk => ?_
  rw [v.key_eq, isCounter_iff.mp (hc v hv)] at hk
  rw [isCounter_iff.mpr hk.symm] at hn
  cases hn

theorem reset (h : WithCounters base vs) : WithCounters base.reset vs.reset := by
  obtain ⟨extra, rfl, hc⟩ := h
  refine ⟨extra.map Variable.reset, by simp [Variables.reset], fun v hv => ?_⟩
  obtain ⟨w, hw, rfl⟩ := List.mem_map.mp hv
  rw [show w.reset.name = w.name from congrArg Header.name w.header_reset]
  exact hc w hw

theorem set_of_has (h : WithCounters base vs) (hn : base.Has name) (value : Value) :
    WithCounters (base.set name value) (vs.set name value) := by
  obtain ⟨extra, rfl, hc⟩ := h
  exact ⟨extra, Variables.set_append_of_has hn extra value, hc⟩

/-- A counter that the first table does not have is stored behind it. -/
theorem set_counter (h : WithCounters base vs) (hn : ¬ base.Has name)
    (hc : isCounter name = true) (value : Value) : WithCounters base (vs.set name value) := by
  obtain ⟨extra, rfl, he⟩ := h
  refine ⟨_, Variables.set_append_of_not_has hn extra value, ?_⟩
  have hh : ∀ c ∈ Variables.headers ⟨extra⟩, isCounter c.name = true := by
    intro c hm
    obtain ⟨v, hv, rfl⟩ := List.mem_map.mp hm
    exact he v hv
  intro v hv
  have hm : v.header ∈ (Variables.set ⟨extra⟩ name value).headers := List.mem_map_of_mem hv
  by_cases hx : Variables.Has ⟨extra⟩ name
  · rw [Variables.headers_set_of_has hx] at hm
    exact hh v.header hm
  · rw [Variables.headers_set_of_not_has hx] at hm
    rcases List.mem_append.mp hm with hm | hm
    · exact hh v.header hm
    · rw [show v.name = name from congrArg Header.name (List.mem_singleton.mp hm)]
      exact hc

end WithCounters

/-! ### Frames alike up to counters -/

/-- The tables have the planned variables with the same values at their front, and only counters
behind them. -/
def AlikeVars (planned vs ws : Variables) : Prop :=
  ∃ base : Variables, base.headers = planned.headers ∧ WithCounters base vs ∧ WithCounters base ws

/-- The frames differ in counters behind the planned variables at most. -/
structure Alike (planned : Variables) (f g : Frame) : Prop where
  vars : AlikeVars planned f.vars g.vars
  requested : f.requested = g.requested
  log : f.log = g.log

section AlikeVars

variable {planned vs ws : Variables} {name : String}

theorem AlikeVars.get (h : AlikeVars planned vs ws)
    (hn : planned.Has name ∨ isCounter name = false) : vs.get name = ws.get name := by
  obtain ⟨base, hb, hv, hw⟩ := h
  have hn := hn.imp_left (Variables.has_iff_of_headers hb name).mpr
  rw [hv.get hn, hw.get hn]

theorem AlikeVars.set (h : AlikeVars planned vs ws)
    (hn : planned.Has name ∨ isCounter name = true) (value : Value) :
    AlikeVars planned (vs.set name value) (ws.set name value) := by
  obtain ⟨base, hb, hv, hw⟩ := h
  by_cases hh : base.Has name
  · exact ⟨base.set name value, by rw [Variables.headers_set_of_has hh, hb],
      hv.set_of_has hh value, hw.set_of_has hh value⟩
  · have hc := hn.resolve_left fun hp => hh ((Variables.has_iff_of_headers hb name).mpr hp)
    exact ⟨base, hb, hv.set_counter hh hc value, hw.set_counter hh hc value⟩

end AlikeVars

section Planned

variable {setting : Setting} {body : List StepStatement} {plan : Plan} {rows : List (Option Row)}

theorem Plan.Describes.scope_eq (h : plan.Describes setting (bodyParts body)) (n : Nat)
    {vs ws : Variables} (hv : AlikeVars plan.vars vs ws) :
    (plan.step setting).scope n vs = (plan.step setting).scope n ws := by
  simp only [Step.scope, Scope.mk.injEq, and_true]
  constructor
  · funext name
    cases hc : isCounter name with
    | true => rfl
    | false => exact hv.get (Or.inr hc)
  · funext array i
    cases he : elementVariable (plan.step setting).arrays array i with
    | error e => rfl
    | ok name =>
      obtain ⟨a, ha, hn⟩ := mem_of_elementVariable he
      exact congrArg Except.ok (hv.get (Or.inl (h.arrays array a ha name hn)))

/-- The statements of a step do the same from frames that are alike. -/
theorem Plan.Describes.runAll_respects (h : plan.Describes setting (bodyParts body)) (n : Nat) :
    Respects (Alike plan.vars) (runAll (plan.step setting) n body) := by
  apply (Fragment.all body).run_respects
  · refine Respects.eval (fun f g hfg => h.scope_eq n hfg.vars) fun f g lines hfg => ?_
    exact ⟨hfg.vars, hfg.requested, by rw [hfg.log]⟩
  · intro names f g hfg
    simp only [request, out_modify]
    split
    · exact ⟨trivial, hfg.vars, by rw [hfg.requested], hfg.log⟩
    · exact ⟨trivial, hfg.vars, by rw [hfg.requested], hfg.log⟩
  · intro s hs name hn v f g hfg
    have ht := (h.has_target hs hn).imp_right And.left
    exact ⟨rfl, hfg.vars.set ht v, hfg.requested, hfg.log⟩
  · intro s hs index hn f g hfg
    apply hfg.vars.get
    left
    cases s <;> simp only [StepStatement.indices, List.not_mem_nil] at hn
    exact h.declared _ hs index hn

/-- Without retained variables, what earlier observations left does not matter to the next. -/
theorem alikeVars_load {planned base vs : Variables}
    (hn : planned.entries.filter (·.retained) = []) (hb : base.headers = planned.headers)
    (hv : WithCounters base vs) {row : Option Row} (hr : Row.Within planned.Has (row.getD [])) :
    AlikeVars planned (Step.load vs row) (Step.load planned row) := by
  have hbase : base.entries.filter (·.retained) = [] := by
    rwa [Variables.filter_retained_eq_nil_iff, hb, ← Variables.filter_retained_eq_nil_iff]
  have hreset : AlikeVars planned vs.reset planned.reset := by
    refine ⟨base.reset, by rw [Variables.headers_reset, hb], hv.reset, ?_⟩
    rw [Variables.reset_congr hb (hbase.trans hn.symm)]
    exact WithCounters.refl _
  unfold Step.load
  generalize vs.reset = us at hreset ⊢
  generalize planned.reset = ws at hreset ⊢
  generalize row.getD [] = cells at hr ⊢
  induction cells generalizing us ws with
  | nil => exact hreset
  | cons cell cells ih =>
    exact ih _ _ (hreset.set (Or.inl (hr cell List.mem_cons_self)) cell.2) fun c hc =>
      hr c (List.mem_cons_of_mem _ hc)

/-- Without retained variables, an observation ends as it does from the planned table. -/
theorem Plan.Describes.process_alike (h : plan.Describes setting (bodyParts body))
    (hn : plan.vars.entries.filter (·.retained) = []) {base vs : Variables}
    (hb : base.headers = plan.vars.headers) (hv : WithCounters base vs) {row : Option Row}
    (hr : Row.Within plan.vars.Has (row.getD [])) (n : Nat) :
    ((plan.step setting).process body n vs row).result =
        ((plan.step setting).process body n plan.vars row).result ∧
      Alike plan.vars ((plan.step setting).process body n vs row).final
        ((plan.step setting).process body n plan.vars row).final :=
  h.runAll_respects n ⟨alikeVars_load hn hb hv hr, rfl, rfl⟩

theorem row?_congr {o o' : Observation} (he : o.result = o'.result)
    (ha : Alike plan.vars o.final o'.final) (j : Nat) :
    o.row? (plan.step setting) j = o'.row? (plan.step setting) j := by
  have hrow : (plan.step setting).outputRow o.final.vars =
      (plan.step setting).outputRow o'.final.vars := by
    apply List.map_congr_left
    intro column hc
    obtain ⟨v, hv, rfl⟩ := List.mem_map.mp (List.mem_filter.mp hc).1
    rw [ha.vars.get (Or.inl (Variables.has_name hv))]
  rw [Observation.row?, Observation.row?, he, ha.requested, hrow]

theorem error?_congr {o o' : Observation} (he : o.result = o'.result) : o.error? = o'.error? := by
  rw [Observation.error?, Observation.error?, he]

theorem stops_congr {o o' : Observation} (he : o.result = o'.result) : o.stops = o'.stops := by
  rw [Observation.stops, Observation.stops, he]

/-! ### Observations one by one -/

/-- Observations up to the first one that stops the step, and with it. -/
def upToStop : List Observation → List Observation
  | [] => []
  | o :: rest => if o.stops then [o] else o :: upToStop rest

/-- The observations of a step when each of them is made alone: the i-th on the i-th row, from the
planned table and with the counter at i. -/
def Plan.alone (setting : Setting) (body : List StepStatement) (plan : Plan)
    (rows : List (Option Row)) : List Observation :=
  upToStop ((rows.zipIdx 1).map fun (row, i) => (plan.step setting).process body i plan.vars row)

/-- What is read off the end of observations is the same for the history of a step without retained
variables as for observations made alone. -/
theorem Plan.Describes.filterMap_history (h : plan.Describes setting (bodyParts body))
    (hn : plan.vars.entries.filter (·.retained) = [])
    (hr : ∀ row ∈ rows, Row.Within plan.vars.Has (row.getD [])) {β : Type}
    (F : Observation → Option β) (hF : ∀ o o' : Observation, o.result = o'.result →
      Alike plan.vars o.final o'.final → F o = F o') :
    (plan.history setting body rows).filterMap F =
      (plan.alone setting body rows).filterMap F := by
  -- the table that the observations so far left has the planned headers, and counters behind them
  suffices hgen : ∀ (n : Nat) (base vs : Variables), base.headers = plan.vars.headers →
      WithCounters base vs →
      ((plan.step setting).history body n vs rows).filterMap F =
        (upToStop ((rows.zipIdx n).map fun (row, i) =>
          (plan.step setting).process body i plan.vars row)).filterMap F from
    hgen 1 plan.vars plan.vars rfl (.refl _)
  induction rows with
  | nil => intros; rfl
  | cons row rows ih =>
    intro n base vs hb hv
    obtain ⟨he, ha⟩ := h.process_alike hn hb hv (hr row List.mem_cons_self) n
    have hstop := stops_congr he
    have hf := hF _ _ he ha
    simp only [Step.history, List.zipIdx_cons, List.map_cons, upToStop]
    rw [hstop]
    split
    · rw [List.filterMap_cons, List.filterMap_cons, hf]
    · obtain ⟨base', hb', hv', -⟩ := ha.vars
      rw [List.filterMap_cons, List.filterMap_cons, hf,
        ih (fun r hm => hr r (List.mem_cons_of_mem _ hm)) (n + 1) base' _ hb' hv']

/-- Only the retained values pass from one observation to the next. -/
structure Isolated (setting : Setting) (body : List StepStatement) (plan : Plan)
    (rows : List (Option Row)) (outcome : Outcome) : Prop where
  /-- Steps that come to an observation with the same table and the same retained variables make
  the same of it, however it ends: they write the same rows, fail or go on in the same way, and
  leave the same variables. -/
  next : ∀ (p q : Step.Progress) (row : Option Row), p.count = q.count →
    p.vars.headers = q.vars.headers →
    p.vars.entries.filter (·.retained) = q.vars.entries.filter (·.retained) →
    let step := plan.step setting
    let o := step.process body (p.count + 1) p.vars row
    step.observe body p row = (p.add step o, !o.stops) ∧
      step.observe body q row = (q.add step o, !o.stops)
  /-- Without retained variables, the rows and the errors are those of observations made alone, up
  to the first that stops the step. -/
  alone : plan.vars.entries.filter (·.retained) = [] →
    (outcome.outputs = setting.outputs.mapIdx fun j r =>
      (r, { name := r.name, columns := plan.columns,
            rows := (plan.alone setting body rows).filterMap (·.row? (plan.step setting) j) })) ∧
    outcome.errors = (plan.alone setting body rows).filterMap Observation.error?

/-- A compiled step over data sets with their cells in columns carries only retained values from
one observation to the next. -/
theorem observations_isolated {notes : List LogLine}
    (h : compile setting body = (notes, .ok (plan, rows)))
    (hk : WellKeyedInputs setting (bodyParts body)) :
    ∃ log outcome, runStep setting body = (log, .ok outcome) ∧
      Isolated setting body plan rows outcome := by
  obtain ⟨⟨more, hp⟩, -⟩ := of_compile h
  obtain ⟨hd, -⟩ := Plan.ofBody_describes hp
  obtain ⟨log, hrun⟩ := runStep_of_compile h
  refine ⟨log, _, hrun, ?_⟩
  constructor
  case next =>
    intro p q row hc hh hv step o
    have hload : Step.load p.vars row = Step.load q.vars row := by
      rw [Step.load, Step.load, Variables.reset_congr hh hv]
    have ho : step.process body (q.count + 1) q.vars row = o := by
      simp only [o, Step.process, hc, hload]
    exact ⟨observe_eq step body p row, ho ▸ observe_eq step body q row⟩
  case alone =>
    intro hn
    have hr := within_of_compile h hk
    have hrows (j : Nat) :
        (plan.history setting body rows).filterMap (·.row? (plan.step setting) j) =
          (plan.alone setting body rows).filterMap (·.row? (plan.step setting) j) :=
      hd.filterMap_history hn hr _ fun o o' he ha => row?_congr he ha j
    rw [execute_eq]
    constructor
    · simp only [hrows]
    · exact hd.filterMap_history hn hr _ fun o o' he _ => error?_congr he

end Planned

/-- The counter that `countVisits` assigns comes into the table, and no variable is retained. -/
theorem observations_isolated_count_visits : ∃ notes plan rows log outcome,
    compile (Setting.reading visits ["out"]) countVisits = (notes, .ok (plan, rows)) ∧
      WellKeyedInputs (Setting.reading visits ["out"]) (bodyParts countVisits) ∧
      runStep (Setting.reading visits ["out"]) countVisits = (log, .ok outcome) ∧
      plan.vars.entries.filter (·.retained) = [] ∧
      Isolated (Setting.reading visits ["out"]) countVisits plan rows outcome := by
  obtain ⟨notes, ⟨plan, rows⟩, h⟩ := exists_eq_of_isOk
    (show (compile (Setting.reading visits ["out"]) countVisits).2.isOk = true by decide +kernel)
  have hk := wellKeyed_visits ["out"] (bodyParts countVisits)
  have hn : ((compile (Setting.reading visits ["out"]) countVisits).2.toOption.map fun p =>
      p.1.vars.entries.filter (·.retained)) = some [] := by
    decide +kernel
  rw [h] at hn
  obtain ⟨log, outcome, hrun, hi⟩ := observations_isolated h hk
  exact ⟨notes, plan, rows, log, outcome, h, hk, hrun, Option.some.inj hn, hi⟩

end DataStep

end StepLang
