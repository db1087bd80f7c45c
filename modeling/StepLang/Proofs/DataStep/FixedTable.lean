import StepLang.Proofs.DataStep.History
import StepLang.Proofs.DataStep.InputRows
import StepLang.Proofs.DataStep.Reach

/-! # The table of variables is fixed before a step runs

Reading a body declares every variable that its statements can assign or read. While the step
runs, its table stays as it was planned, except that the counter may come in at its end.
-/

namespace StepLang

/-- The value of the expression may depend on the variable, where `arrays` says what the elements
of an array are. The argument of `DIM` is a name and is not read. -/
inductive Expression.Reads (arrays : NameMap DataStep.ArrayDef) : Expression → String → Prop where
  | ref {name} : Reads arrays (.ref name) name
  | left {op e e' name} : Reads arrays e name → Reads arrays (.binary op e e') name
  | right {op e e' name} : Reads arrays e' name → Reads arrays (.binary op e e') name
  | operand {op e name} : Reads arrays e name → Reads arrays (.unary op e) name
  | argument {function args e name} : Text.sameName function "dim" = false → e ∈ args →
      Reads arrays e name → Reads arrays (.call function args) name
  | index {a e name} : Reads arrays e name → Reads arrays (.element a e) name
  | element {a e d name} : arrays.find? a = some d → name ∈ d.vars →
      Reads arrays (.element a e) name

def StepStatement.assigned (setting : DataStep.Setting) (arrays : NameMap DataStep.ArrayDef) :
    StepStatement → List String
  | .set refs | .merge refs => refs.flatMap (sourceColumns setting)
  | .input fields => fields.map (·.name)
  | .retain items => items.map (·.name)
  | .length items => items.map (·.name)
  | s => s.targets arrays

namespace DataStep

open Exec

theorem mem_referencesAll_iff {name : String} {es : List Expression} :
    name ∈ referencesAll es ↔ ∃ e ∈ es, name ∈ references e := by
  induction es with
  | nil => simp [referencesAll]
  | cons e es ih => simp [referencesAll, ih]

/-- A variable that an expression reads is one of its references or an element of an array. -/
theorem mem_references_of_reads {arrays : NameMap ArrayDef} {e : Expression} {name : String}
    (h : e.Reads arrays name) :
    name ∈ references e ∨ ∃ a d, arrays.find? a = some d ∧ name ∈ d.vars := by
  induction h with
  | ref => simp [references]
  | left _ ih => exact ih.imp_left fun h => by simp [references, h]
  | right _ ih => exact ih.imp_left fun h => by simp [references, h]
  | operand _ ih => exact ih.imp_left fun h => by simpa [references] using h
  | argument hf he _ ih =>
    refine ih.imp_left fun h => ?_
    simp only [references, hf, Bool.false_eq_true, if_false]
    exact mem_referencesAll_iff.mpr ⟨_, he, h⟩
  | index _ ih => exact ih.imp_left fun h => by simpa [references] using h
  | element ha hn => exact Or.inr ⟨_, _, ha, hn⟩

/-- The value of an expression is the same from variables that agree on what it reads. -/
theorem evaluate_congr (step : Step) (n : Nat) (vs ws : Variables) :
    (∀ e : Expression, (∀ name, e.Reads step.arrays name → vs.get name = ws.get name) →
      evaluate (step.scope n vs) e = evaluate (step.scope n ws) e) ∧
    ∀ es : List Expression,
      (∀ e ∈ es, ∀ name, e.Reads step.arrays name → vs.get name = ws.get name) →
      evaluateAll (step.scope n vs) es = evaluateAll (step.scope n ws) es := by
  apply references.mutual_induct
  case case1 =>
    intro name h
    simp only [evaluate, Step.scope, h name .ref]
  case case2 =>
    intro op left right ihl ihr h
    have hl := ihl fun name hn => h name (.left hn)
    have hr := ihr fun name hn => h name (.right hn)
    cases op <;> simp only [evaluate, hl, hr]
  case case3 =>
    intro op operand ih h
    simp only [evaluate, ih fun name hn => h name (.operand hn)]
  case case4 =>
    intro function args hd h
    simp only [evaluate, hd, if_true]
    rfl
  case case5 =>
    intro function args hd ih h
    have hargs := ih fun e he name hn => h name (.argument (by simpa using hd) he hn)
    simp only [evaluate, hd, hargs]
    rfl
  case case6 =>
    intro array index ih h
    have hi := ih fun name hn => h name (.index hn)
    have hsize : (step.scope n vs).arraySize? array = (step.scope n ws).arraySize? array := rfl
    have helement (i : Int) :
        (step.scope n vs).element array i = (step.scope n ws).element array i := by
      simp only [Step.scope]
      cases he : elementVariable step.arrays array i with
      | error e => rfl
      | ok name =>
        obtain ⟨a, ha, hn⟩ := mem_of_elementVariable he
        exact congrArg Except.ok (h name (.element ha hn))
    simp only [evaluate, hi, hsize, helement]
  case case7 =>
    intro e href hbinary hunary hcall helement _
    cases e with
    | number | text | missing | macroRef => rfl
    | ref name => exact (href name rfl).elim
    | binary op left right => exact (hbinary op left right rfl).elim
    | unary op operand => exact (hunary op operand rfl).elim
    | call function args => exact (hcall function args rfl).elim
    | element array index => exact (helement array index rfl).elim
  case case8 => intro h; rfl
  case case9 =>
    intro e es ihe ihs h
    have he := ihe (h e List.mem_cons_self)
    have hs := ihs fun e' hm => h e' (List.mem_cons_of_mem _ hm)
    simp only [evaluateAll, he, hs]

section Planned

variable {setting : Setting} {parts : List StepStatement} {plan : Plan} {s : StepStatement}
  {name : String}

/-- What a statement stores into is planned, unless it assigns the counter by its name. -/
theorem Plan.Describes.has_target (h : plan.Describes setting parts) (hs : s ∈ parts)
    (hn : name ∈ s.targets plan.arrays) :
    plan.vars.Has name ∨ isCounter name = true ∧ ∃ value, s = .assign (.ref name) value := by
  have hd := h.declared s hs name
  cases s with
  | assign target value =>
    cases target with
    | ref other =>
      obtain rfl := List.mem_singleton.mp hn
      cases hc : isCounter name with
      | true => exact Or.inr ⟨rfl, value, rfl⟩
      | false => exact Or.inl (hd (by simp [StepStatement.declared, hc]))
    | element a index =>
      left
      simp only [StepStatement.targets] at hn
      cases ha : plan.arrays.find? a with
      | none => simp [ha] at hn
      | some d =>
        rw [ha] at hn
        exact h.arrays a d ha name hn
  | iterate => exact Or.inl (hd hn)
  | _ => cases hn

/-- Every variable that a statement can give a value is planned, unless it assigns the counter by
its name. -/
theorem Plan.Describes.has_assigned (h : plan.Describes setting parts) (hs : s ∈ parts)
    (hn : name ∈ s.assigned setting plan.arrays) :
    plan.vars.Has name ∨ isCounter name = true ∧ ∃ value, s = .assign (.ref name) value := by
  have hd := h.declared s hs name
  cases s with
  | set | merge | input | retain | length => exact Or.inl (hd hn)
  | _ => exact h.has_target hs hn

theorem Plan.Describes.knows_read {body : List StepStatement}
    (h : plan.Describes setting (bodyParts body))
    (hk : ∀ name ∈ bodyReferences body, plan.Knows name)
    (hs : s ∈ bodyParts body) {e : Expression} (he : e ∈ s.expressions)
    (hr : e.Reads plan.arrays name) : plan.Knows name := by
  rcases mem_references_of_reads hr with hr | ⟨a, d, ha, hn⟩
  · apply hk
    refine (Fragment.mem_references_iff name (.all body)).mpr (Or.inr ⟨s, hs, ?_⟩)
    exact mem_referencesAll_iff.mpr ⟨e, he, hr⟩
  · exact Or.inr (Or.inr (h.arrays a d ha name hn))

end Planned

/-! ### Tables up to the counter -/

/-- The second table is the first one, with the counter behind it at most. -/
def UpToCounter (vs ws : Variables) : Prop :=
  ws.headers = vs.headers ∨
    ∃ h : Header, isCounter h.name = true ∧ ws.headers = vs.headers ++ [h]

namespace UpToCounter

variable {vs ws : Variables} {name : String}

theorem refl (vs : Variables) : UpToCounter vs vs :=
  Or.inl rfl

theorem reset (h : UpToCounter vs ws) : UpToCounter vs ws.reset := by
  rwa [UpToCounter, Variables.headers_reset]

theorem has (h : UpToCounter vs ws) (hn : vs.Has name) : ws.Has name := by
  rw [Variables.Has, Variables.keys_eq_map_headers] at hn ⊢
  rcases h with h | ⟨c, -, h⟩
  · rwa [h]
  · rw [h, List.map_append]
    exact List.mem_append_left _ hn

/-- Storing into a planned variable or into the counter keeps the table up to the counter. -/
theorem set (h : UpToCounter vs ws) (hn : vs.Has name ∨ isCounter name = true) (value : Value) :
    UpToCounter vs (ws.set name value) := by
  by_cases hw : ws.Has name
  · rwa [UpToCounter, Variables.headers_set_of_has hw]
  · have hc : isCounter name = true := hn.resolve_left fun hn => hw (h.has hn)
    rw [UpToCounter, Variables.headers_set_of_not_has hw]
    rcases h with h | ⟨c, hcn, h⟩
    · exact Or.inr ⟨_, hc, by rw [h]⟩
    · -- the counter is there already, so it is not missing
      refine absurd ?_ hw
      rw [Variables.Has, Variables.keys_eq_map_headers, h, List.map_append, isCounter_iff.mp hc]
      exact List.mem_append_right _ (List.mem_singleton.mpr (isCounter_iff.mp hcn).symm)

end UpToCounter

section Run

variable {setting : Setting} {body : List StepStatement} {plan : Plan} {rows : List (Option Row)}

/-- The statements of a step keep its table up to the counter. -/
theorem Plan.Describes.set_target (h : plan.Describes setting (bodyParts body)) :
    ∀ s ∈ bodyParts body, ∀ name ∈ s.targets (plan.step setting).arrays, ∀ v ws,
      UpToCounter plan.vars ws → UpToCounter plan.vars (ws.set name v) := by
  intro s hs name hn v ws hw
  exact hw.set ((h.has_target hs hn).imp_right And.left) v

/-- Loading a row whose columns are planned keeps the table up to the counter. -/
theorem UpToCounter.load {vs ws : Variables} {row : Option Row} (h : UpToCounter vs ws)
    (hr : Row.Within vs.Has (row.getD [])) : UpToCounter vs (Step.load ws row) :=
  load_keeps (fun _ h => h.reset) (fun cell hc v _ h => h.set (Or.inl (hr cell hc)) v) h

theorem Plan.Describes.history_upToCounter (h : plan.Describes setting (bodyParts body))
    (hr : ∀ row ∈ rows, Row.Within plan.vars.Has (row.getD [])) :
    ∀ o ∈ plan.history setting body rows,
      UpToCounter plan.vars o.start.vars ∧ UpToCounter plan.vars o.final.vars :=
  history_keeps (fun row hm _ hw => hw.load (hr row hm)) h.set_target (.refl _)

theorem of_compile {notes : List LogLine} (h : compile setting body = (notes, .ok (plan, rows))) :
    (∃ more, Plan.ofBody setting body = .ok (plan, more)) ∧
      ∃ more read, plan.rows = (more, .ok read) ∧ rows = observations setting.obsLimit read := by
  unfold compile at h
  split at h
  · cases h
  · next p more hp =>
    split at h
    · cases h
    · next more' read hrows =>
      obtain ⟨rfl, rfl⟩ := Prod.mk.inj (Except.ok.inj (Prod.mk.inj h).2)
      exact ⟨⟨more, hp⟩, more', read, hrows, rfl⟩

theorem within_of_compile {notes : List LogLine}
    (h : compile setting body = (notes, .ok (plan, rows)))
    (hk : WellKeyedInputs setting (bodyParts body)) :
    ∀ row ∈ rows, Row.Within plan.vars.Has (row.getD []) := by
  obtain ⟨⟨more, hp⟩, more', read, hrows, rfl⟩ := of_compile h
  refine within_observations fun l hl => ?_
  exact (Plan.ofBody_describes hp).1.rows_within hk (hl ▸ hrows)

/-- A table only grows from the start of an observation to its end, and on to the next one. -/
theorem history_pairwise (step : Step) (body : List StepStatement) (n : Nat) (vs : Variables)
    (rows : List (Option Row)) :
    ((step.history body n vs rows).flatMap fun o =>
      [o.start.vars.headers, o.final.vars.headers]).Pairwise (· <+: ·) := by
  have hset (us : Variables) (name : String) (v : Value) (ws : Variables)
      (h : us.headers <+: ws.headers) : us.headers <+: (ws.set name v).headers :=
    h.trans (ws.headers_prefix_set name v)
  have hload (us : Variables) (row : Option Row) (ws : Variables)
      (h : us.headers <+: ws.headers) : us.headers <+: (Step.load ws row).headers :=
    load_keeps (fun ws h => by rwa [Variables.headers_reset])
      (fun cell _ v ws h => hset us cell.1 v ws h) h
  have hprocess (n : Nat) (vs : Variables) (row : Option Row) :
      (step.process body n vs row).start.vars.headers <+:
        (step.process body n vs row).final.vars.headers :=
    (Fragment.all body).run_keeps_vars (fun _ _ name _ v ws h => hset _ name v ws h) List.prefix_rfl
  induction rows generalizing n vs with
  | nil => simp [Step.history]
  | cons row rows ih =>
    rw [Step.history]
    split
    · simpa using hprocess n vs row
    · have hstart := hprocess n vs row
      -- every later table has the last one of this observation at its front
      have hlater : ∀ o ∈ step.history body (n + 1) (step.process body n vs row).final.vars rows,
          (step.process body n vs row).final.vars.headers <+: o.start.vars.headers ∧
            (step.process body n vs row).final.vars.headers <+: o.final.vars.headers :=
        history_keeps (fun row _ ws h => hload _ row ws h)
          (fun _ _ name _ v ws h => hset _ name v ws h) List.prefix_rfl
      have htables : ∀ t ∈ (step.history body (n + 1) (step.process body n vs row).final.vars
          rows).flatMap fun o => [o.start.vars.headers, o.final.vars.headers],
          (step.process body n vs row).final.vars.headers <+: t := by
        intro t ht
        obtain ⟨o, ho, ht⟩ := List.mem_flatMap.mp ht
        simp only [List.mem_cons, List.not_mem_nil, or_false] at ht
        rcases ht with rfl | rfl
        · exact (hlater o ho).1
        · exact (hlater o ho).2
      simp only [List.flatMap_cons, List.cons_append, List.nil_append, List.pairwise_cons]
      refine ⟨fun t ht => ?_, htables, ih _ _⟩
      rcases List.mem_cons.mp ht with rfl | ht
      · exact hstart
      · exact hstart.trans (htables t ht)

/-- The table of a step is planned before its first observation and stays as it was planned. -/
structure FixedTable (setting : Setting) (body : List StepStatement) (plan : Plan)
    (rows : List (Option Row)) : Prop where
  /-- Every variable that a statement at any depth can assign is planned, unless the statement
  assigns the counter by its name. -/
  assigned : ∀ s ∈ bodyParts body, ∀ name ∈ s.assigned setting plan.arrays,
    plan.vars.Has name ∨ isCounter name = true ∧ ∃ value, s = .assign (.ref name) value
  /-- Every variable that an expression reads is planned, unless it is the counter or an array. -/
  read : ∀ s ∈ bodyParts body, ∀ e ∈ s.expressions, ∀ name, e.Reads plan.arrays name →
    isCounter name = true ∨ (plan.arrays.find? name).isSome = true ∨ plan.vars.Has name
  /-- An expression looks at no other variables. -/
  looks : ∀ e : Expression, ∀ n vs ws,
    (∀ name, e.Reads plan.arrays name → vs.get name = ws.get name) →
      evaluate ((plan.step setting).scope n vs) e = evaluate ((plan.step setting).scope n ws) e
  /-- The step runs as its observations one after the other. -/
  runs : ∀ log, (plan.step setting).observeAll body (plan.start setting log) rows =
    (plan.history setting body rows).foldl (Step.Progress.add (plan.step setting))
      (plan.start setting log)
  /-- Whenever an observation starts, comes to a statement or ends, the table is the planned one
  with the counter behind it at most. -/
  kept : ∀ o ∈ plan.history setting body rows,
    UpToCounter plan.vars o.start.vars ∧ UpToCounter plan.vars o.final.vars ∧
      ∀ s g, Reaches (plan.step setting) o.number (.all body) o.start s g →
        UpToCounter plan.vars g.vars
  /-- No variable goes away from one observation to another. -/
  grows : ((plan.history setting body rows).flatMap fun o =>
    [o.start.vars.headers, o.final.vars.headers]).Pairwise (· <+: ·)

/-- Compiling a step fixes its table, if the data sets that it reads have their cells in columns. -/
theorem table_fixed_by_compile {notes : List LogLine}
    (h : compile setting body = (notes, .ok (plan, rows)))
    (hk : WellKeyedInputs setting (bodyParts body)) : FixedTable setting body plan rows := by
  obtain ⟨⟨more, hp⟩, -⟩ := of_compile h
  obtain ⟨hd, hn⟩ := Plan.ofBody_describes hp
  have hr := within_of_compile h hk
  constructor
  case assigned =>
    intro s hs name hm
    exact hd.has_assigned hs hm
  case read =>
    intro s hs e he name hm
    exact hd.knows_read hn hs he hm
  case looks =>
    intro e n vs ws he
    exact (evaluate_congr (plan.step setting) n vs ws).1 e he
  case runs =>
    intro log
    exact observeAll_eq (plan.step setting) body (plan.start setting log) rows
  case kept =>
    intro o ho
    obtain ⟨hstart, hfinal⟩ := hd.history_upToCounter hr o ho
    refine ⟨hstart, hfinal, fun s g hg => ?_⟩
    exact hg.keeps hd.set_target hstart
  case grows => exact history_pairwise (plan.step setting) body 1 plan.vars rows

end Run

/-! ### A step over visits -/

def Setting.reading (d : Dataset) (outputs : List String) : Setting where
  outputs := outputs.map (⟨none, ·⟩)
  dataset _ := .ok d
  macroText? _ := none
  today := 0
  loopLimit := 10
  obsLimit := none

def visits : Dataset where
  name := "visits"
  columns := ["who", "cost"]
  rows := [[("who", .text "ann"), ("cost", .number 3.0)], [("who", .text "bob")]]

theorem wellKeyed_visits (outputs : List String) (parts : List StepStatement) :
    WellKeyedInputs (Setting.reading visits outputs) parts := by
  rintro s - r - d hd
  obtain rfl := Except.ok.inj hd
  decide +kernel

theorem exists_eq_ok {α : Type} {x : Except Error α} (h : x.isOk = true) : ∃ a, x = .ok a := by
  cases x with
  | error e => cases h
  | ok a => exact ⟨a, rfl⟩

theorem exists_eq_of_isOk {α : Type} {x : List LogLine × Except Error α} (h : x.2.isOk = true) :
    ∃ notes a, x = (notes, .ok a) := by
  obtain ⟨a, ha⟩ := exists_eq_ok h
  exact ⟨x.1, a, Prod.ext rfl ha⟩

/-- A loop assigns the counter and elements of an array, and reads a variable that nothing
assigns. -/
def countVisits : List StepStatement :=
  [.set [⟨none, "visits"⟩], .array "part" (.fixed 2) .numeric ["p", "q"],
    .iterate "i" (.number 1.0) (.number 2.0) none
      [.assign (.element "part" (.ref "i")) (.binary .add (.ref "cost") (.ref "extra")),
        .assign (.ref "_n_") (.ref "i")]]

theorem table_fixed_count_visits : ∃ notes plan rows,
    compile (Setting.reading visits ["out"]) countVisits = (notes, .ok (plan, rows)) ∧
      WellKeyedInputs (Setting.reading visits ["out"]) (bodyParts countVisits) ∧
      FixedTable (Setting.reading visits ["out"]) countVisits plan rows := by
  obtain ⟨notes, ⟨plan, rows⟩, h⟩ := exists_eq_of_isOk
    (show (compile (Setting.reading visits ["out"]) countVisits).2.isOk = true by decide +kernel)
  have hk := wellKeyed_visits ["out"] (bodyParts countVisits)
  exact ⟨notes, plan, rows, h, hk, table_fixed_by_compile h hk⟩

end DataStep

end StepLang
