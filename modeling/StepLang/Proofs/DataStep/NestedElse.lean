import StepLang.Proofs.DataStep.Fragment

/-! # Further branches as nested statements

A further branch with a condition is the same as an ELSE whose statement is an IF. Both are
declared, read and run alike wherever they stand in a step, so a step does not depend on which of
the two is written.
-/

namespace StepLang.DataStep

open Fragment (one all others)

/-- The second fragment is the first one with some of its conditional further branches, at any
depth, written as nested statements. -/
inductive Nests : Fragment → Fragment → Prop
  | simple {s : StepStatement} (h : s.isSimple = true) : Nests (one s) (one s)
  | branch (c : Expression) {s s' : StepStatement} {o o' : Alternative}
    (hs : Nests (one s) (one s')) (ho : Nests (others o) (others o')) :
    Nests (one (.branch c s o)) (one (.branch c s' o'))
  | iterate (index : String) (first last : Expression) (increment : Option Expression)
    {body body' : List StepStatement} (h : Nests (all body) (all body')) :
    Nests (one (.iterate index first last increment body))
      (one (.iterate index first last increment body'))
  | loop (test : LoopTest) {body body' : List StepStatement} (h : Nests (all body) (all body')) :
    Nests (one (.loop test body)) (one (.loop test body'))
  | block {body body' : List StepStatement} (h : Nests (all body) (all body')) :
    Nests (one (.block body)) (one (.block body'))
  | nil : Nests (all []) (all [])
  | cons {s s' : StepStatement} {rest rest' : List StepStatement} (hs : Nests (one s) (one s'))
    (hr : Nests (all rest) (all rest')) : Nests (all (s :: rest)) (all (s' :: rest'))
  | none : Nests (others .none) (others .none)
  | otherwise {s s' : StepStatement} (h : Nests (one s) (one s')) :
    Nests (others (.otherwise s)) (others (.otherwise s'))
  | elseIf (c : Expression) {s s' : StepStatement} {o o' : Alternative}
    (hs : Nests (one s) (one s')) (ho : Nests (others o) (others o')) :
    Nests (others (.elseIf c s o)) (others (.elseIf c s' o'))
  | nested (c : Expression) {s s' : StepStatement} {o o' : Alternative}
    (hs : Nests (one s) (one s')) (ho : Nests (others o) (others o')) :
    Nests (others (.elseIf c s o)) (others (.otherwise (.branch c s' o')))

namespace Nests

variable {a b : Fragment} {body body' : List StepStatement}

theorem refl (fragment : Fragment) : Nests fragment fragment := by
  induction fragment using Fragment.induct with
  | simple s h => exact .simple h
  | branch c s o ihs iho => exact .branch c ihs iho
  | iterate index first last increment body ih => exact .iterate index first last increment ih
  | loop test body ih => exact .loop test ih
  | block body ih => exact .block ih
  | nil => exact .nil
  | cons s rest ihs ihr => exact .cons ihs ihr
  | none => exact .none
  | otherwise s ih => exact .otherwise ih
  | elseIf c s o ihs iho => exact .elseIf c ihs iho

theorem branch_elseIf (c : Expression) (s : StepStatement) (c' : Expression) (s' : StepStatement)
    (o : Alternative) :
    Nests (one (.branch c s (.elseIf c' s' o)))
      (one (.branch c s (.otherwise (.branch c' s' o)))) :=
  .branch c (refl _) (.nested c' (refl _) (refl _))

theorem append {rest rest' : List StepStatement} (h : Nests (all body) (all body'))
    (hr : Nests (all rest) (all rest')) : Nests (all (body ++ rest)) (all (body' ++ rest')) := by
  generalize hx : all body = x at h
  generalize hy : all body' = y at h
  induction h generalizing body body' with
  | nil =>
    cases hx
    cases hy
    exact hr
  | cons hs _ _ ih =>
    cases hx
    cases hy
    exact .cons hs (ih rfl rfl)
  | _ => cases hx

theorem declare_eq (h : Nests a b) (setting : Setting) (p : Plan) :
    a.declare setting p = b.declare setting p := by
  induction h generalizing p with
  | simple | nil | none => rfl
  | branch c _ _ ihs iho =>
    simp only [Fragment.declare, Plan.declare] at ihs iho ⊢
    simp only [ihs, iho]
  | iterate index first last increment _ ih | loop test _ ih | block _ ih | otherwise _ ih =>
    simp only [Fragment.declare, Plan.declare, Plan.declareOthers] at ih ⊢
    exact ih _
  | cons _ _ ihs ihr =>
    simp only [Fragment.declare, Plan.declareAll] at ihs ihr ⊢
    simp only [ihs, ihr]
  | elseIf c _ _ ihs iho | nested c _ _ ihs iho =>
    simp only [Fragment.declare, Plan.declareOthers, Plan.declare] at ihs iho ⊢
    simp only [ihs, iho]

theorem references_eq (h : Nests a b) : a.references = b.references := by
  induction h with
  | simple | nil | none => rfl
  | branch c _ _ ihs iho =>
    simp only [Fragment.references, statementReferences] at ihs iho ⊢
    rw [ihs, iho]
  | iterate index first last increment _ ih | block _ ih =>
    simp only [Fragment.references, statementReferences] at ih ⊢
    rw [ih]
  | loop test _ ih =>
    simp only [Fragment.references] at ih ⊢
    cases test <;> simp only [statementReferences, ih]
  | cons _ _ ihs ihr =>
    simp only [Fragment.references, bodyReferences] at ihs ihr ⊢
    rw [ihs, ihr]
  | otherwise _ ih =>
    simp only [Fragment.references, otherReferences] at ih ⊢
    exact ih
  | elseIf c _ _ ihs iho | nested c _ _ ihs iho =>
    simp only [Fragment.references, otherReferences, statementReferences] at ihs iho ⊢
    rw [ihs, iho]

/-- Both fragments run alike in every observation. -/
theorem run_eq (h : Nests a b) (step : Step) (n : Nat) : a.run step n = b.run step n := by
  induction h with
  | simple | nil | none => rfl
  | branch c _ _ ihs iho =>
    simp only [Fragment.run, Exec.runOne] at ihs iho ⊢
    rw [ihs, iho]
  | iterate index first last increment _ ih | block _ ih =>
    simp only [Fragment.run, Exec.runOne] at ih ⊢
    rw [ih]
  | loop test _ ih =>
    simp only [Fragment.run] at ih ⊢
    cases test <;> simp only [Exec.runOne, ih]
  | cons _ _ ihs ihr =>
    simp only [Fragment.run, Exec.runAll] at ihs ihr ⊢
    rw [ihs, ihr]
  | otherwise _ ih =>
    simp only [Fragment.run, Exec.runOthers] at ih ⊢
    exact ih
  | elseIf c _ _ ihs iho | nested c _ _ ihs iho =>
    simp only [Fragment.run, Exec.runOthers, Exec.runOne] at ihs iho ⊢
    rw [ihs, iho]

/-! ### Steps -/

theorem ofBody_eq (h : Nests (all body) (all body')) (setting : Setting) :
    Plan.ofBody setting body = Plan.ofBody setting body' := by
  have hdeclare : Plan.declareAll setting {} body = Plan.declareAll setting {} body' :=
    h.declare_eq setting {}
  have hreferences : bodyReferences body = bodyReferences body' := h.references_eq
  unfold Plan.ofBody
  rw [hdeclare, hreferences]

theorem compile_eq (h : Nests (all body) (all body')) (setting : Setting) :
    compile setting body = compile setting body' := by
  unfold compile
  rw [h.ofBody_eq]

theorem observe_eq (h : Nests (all body) (all body')) (step : Step) (p : Step.Progress)
    (row : Option Row) : step.observe body p row = step.observe body' p row := by
  have hrun (n : Nat) : Exec.runAll step n body = Exec.runAll step n body' := h.run_eq step n
  unfold Step.observe
  simp only [hrun]

theorem observeAll_eq (h : Nests (all body) (all body')) (step : Step) (p : Step.Progress)
    (rows : List (Option Row)) : step.observeAll body p rows = step.observeAll body' p rows := by
  induction rows generalizing p with
  | nil => rfl
  | cons row rows ih => simp only [Step.observeAll, h.observe_eq, ih]

theorem execute_eq (h : Nests (all body) (all body')) (setting : Setting) (plan : Plan) (log : Log)
    (rows : List (Option Row)) :
    execute setting body plan log rows = execute setting body' plan log rows := by
  unfold execute
  simp only [h.observeAll_eq]

theorem runStep_eq (h : Nests (all body) (all body')) (setting : Setting) :
    runStep setting body = runStep setting body' := by
  unfold runStep
  rw [h.compile_eq]
  simp only [h.execute_eq]

end Nests

end StepLang.DataStep
