import StepLang.DataStep.Execution

/-! # Fragments of a step

A statement, a list of statements and the further branches of a statement are run and declared by
three functions that call each other. A fragment is any of the three, so that what holds of them
is proved by one induction. The parts of a fragment are the statements in it at any depth.
-/

namespace StepLang

def StepStatement.isSimple : StepStatement → Bool
  | .branch .. | .iterate .. | .loop .. | .block _ => false
  | _ => true

mutual

/-- A statement and those inside it, in the order of the text. -/
def StepStatement.parts : StepStatement → List StepStatement
  | .branch c s o => .branch c s o :: (s.parts ++ o.parts)
  | .iterate index first last increment body =>
    .iterate index first last increment body :: bodyParts body
  | .loop test body => .loop test body :: bodyParts body
  | .block body => .block body :: bodyParts body
  | s => [s]

def bodyParts : List StepStatement → List StepStatement
  | [] => []
  | s :: rest => s.parts ++ bodyParts rest

def Alternative.parts : Alternative → List StepStatement
  | .none => []
  | .otherwise s => s.parts
  | .elseIf _ s o => s.parts ++ o.parts

end

def Alternative.conditions : Alternative → List Expression
  | .none | .otherwise _ => []
  | .elseIf c _ o => c :: o.conditions

/-- The expressions of a statement itself, those of the statements inside it left out. -/
def StepStatement.expressions : StepStatement → List Expression
  | .assign (.ref _) value => [value]
  | .assign (.element _ index) value => [index, value]
  | .branch c _ o => c :: o.conditions
  | .subset c => [c]
  | .iterate _ first last increment _ => first :: last :: increment.toList
  | .loop (.whileTrue c) _ | .loop (.untilTrue c) _ => [c]
  | _ => []

namespace DataStep

inductive Fragment where
  | one (statement : StepStatement)
  | all (body : List StepStatement)
  | others (alternative : Alternative)

namespace Fragment

def parts : Fragment → List StepStatement
  | one s => s.parts
  | all body => bodyParts body
  | others o => o.parts

/-- The conditions that belong to no part of the fragment. -/
def conditions : Fragment → List Expression
  | others o => o.conditions
  | _ => []

def run (step : Step) (n : Nat) : Fragment → Exec Flow
  | one s => Exec.runOne step n s
  | all body => Exec.runAll step n body
  | others o => Exec.runOthers step n o

def declare (setting : Setting) (p : Plan) : Fragment → Except Error Plan
  | one s => Plan.declare setting p s
  | all body => Plan.declareAll setting p body
  | others o => Plan.declareOthers setting p o

def references : Fragment → List String
  | one s => statementReferences s
  | all body => bodyReferences body
  | others o => otherReferences o

/-- What holds of the fragments inside a fragment carries over to it, so it holds of all. -/
@[elab_as_elim]
theorem induct {motive : Fragment → Prop}
    (simple : ∀ s : StepStatement, s.isSimple = true → motive (one s))
    (branch : ∀ c s o, motive (one s) → motive (others o) → motive (one (.branch c s o)))
    (iterate : ∀ index first last increment body, motive (all body) →
      motive (one (.iterate index first last increment body)))
    (loop : ∀ test body, motive (all body) → motive (one (.loop test body)))
    (block : ∀ body, motive (all body) → motive (one (.block body)))
    (nil : motive (all []))
    (cons : ∀ s rest, motive (one s) → motive (all rest) → motive (all (s :: rest)))
    (none : motive (others .none))
    (otherwise : ∀ s, motive (one s) → motive (others (.otherwise s)))
    (elseIf : ∀ c s o, motive (one s) → motive (others o) → motive (others (.elseIf c s o)))
    (fragment : Fragment) : motive fragment := by
  obtain ⟨h₁, h₂, h₃⟩ := StepStatement.parts.mutual_induct (fun s => motive (one s))
    (fun body => motive (all body)) (fun o => motive (others o)) branch iterate loop block
    (fun s hb hi hl hk => simple s (by
      cases s <;> first | rfl | exact (hb _ _ _ rfl).elim | exact (hi _ _ _ _ _ rfl).elim |
        exact (hl _ _ rfl).elim | exact (hk _ rfl).elim))
    none otherwise elseIf nil cons
  cases fragment with
  | one s => exact h₁ s
  | all body => exact h₂ body
  | others o => exact h₃ o

section Parts

variable (c : Expression) (s : StepStatement) (o : Alternative) (body rest : List StepStatement)

theorem parts_simple {s : StepStatement} (h : s.isSimple = true) : (one s).parts = [s] := by
  cases s <;> first | rfl | cases h

@[simp] theorem parts_branch :
    (one (.branch c s o)).parts = .branch c s o :: ((one s).parts ++ (others o).parts) := by
  simp only [parts, StepStatement.parts]

@[simp] theorem parts_iterate (index : String) (first last : Expression)
    (increment : Option Expression) :
    (one (.iterate index first last increment body)).parts =
      .iterate index first last increment body :: (all body).parts := by
  simp only [parts, StepStatement.parts]

@[simp] theorem parts_loop (test : LoopTest) :
    (one (.loop test body)).parts = .loop test body :: (all body).parts := by
  simp only [parts, StepStatement.parts]

@[simp] theorem parts_block : (one (.block body)).parts = .block body :: (all body).parts := by
  simp only [parts, StepStatement.parts]

@[simp] theorem parts_nil : (all []).parts = [] := by
  simp only [parts, bodyParts]

@[simp] theorem parts_cons : (all (s :: rest)).parts = (one s).parts ++ (all rest).parts := by
  simp only [parts, bodyParts]

@[simp] theorem parts_none : (others .none).parts = [] := by
  simp only [parts, Alternative.parts]

@[simp] theorem parts_otherwise : (others (.otherwise s)).parts = (one s).parts := by
  simp only [parts, Alternative.parts]

@[simp] theorem parts_elseIf :
    (others (.elseIf c s o)).parts = (one s).parts ++ (others o).parts := by
  simp only [parts, Alternative.parts]

end Parts

/-- The names that a fragment reads are those that the expressions of its parts read. -/
theorem mem_references_iff (name : String) (fragment : Fragment) :
    name ∈ fragment.references ↔
      name ∈ referencesAll fragment.conditions ∨
        ∃ s ∈ fragment.parts, name ∈ referencesAll s.expressions := by
  induction fragment using induct with
  | simple s hs =>
    rw [parts_simple hs]
    cases s with
    | assign target value =>
      cases target <;>
        simp [references, statementReferences, StepStatement.expressions, conditions, referencesAll]
    | branch | iterate | loop | block => cases hs
    | _ =>
      simp [references, statementReferences, StepStatement.expressions, conditions, referencesAll]
  | branch c s o ihs iho =>
    have he : (StepStatement.branch c s o).expressions = c :: o.conditions := rfl
    simp only [references, conditions, referencesAll, List.not_mem_nil, false_or] at ihs iho ⊢
    simp only [statementReferences, List.mem_append, ihs, iho, parts_branch, List.mem_cons,
      or_and_right, exists_or, exists_eq_left, he, referencesAll]
    exact or_or_or_comm
  | iterate index first last increment body ih =>
    simp only [references, conditions, referencesAll, List.not_mem_nil, false_or] at ih ⊢
    cases increment <;>
      simp [statementReferences, ih, StepStatement.expressions, referencesAll, or_assoc]
  | loop test body ih =>
    simp only [references, conditions, referencesAll, List.not_mem_nil, false_or] at ih ⊢
    cases test <;>
      simp [statementReferences, ih, StepStatement.expressions, referencesAll, or_comm]
  | block body ih =>
    simp only [references, conditions, referencesAll, List.not_mem_nil, false_or] at ih ⊢
    simp [statementReferences, ih, StepStatement.expressions, referencesAll]
  | nil => simp [references, bodyReferences, conditions, referencesAll]
  | cons s rest ihs ihr =>
    simp only [references, conditions, referencesAll, List.not_mem_nil, false_or] at ihs ihr ⊢
    simp [bodyReferences, ihs, ihr, or_and_right, exists_or]
  | none => simp [references, otherReferences, conditions, Alternative.conditions, referencesAll]
  | otherwise s ih =>
    simp only [references, conditions, referencesAll, List.not_mem_nil, false_or] at ih ⊢
    simp [otherReferences, ih, Alternative.conditions, referencesAll]
  | elseIf c s o ihs iho =>
    simp only [references, conditions, referencesAll, List.not_mem_nil, false_or] at ihs iho ⊢
    simp only [otherReferences, List.mem_append, ihs, iho, Alternative.conditions, referencesAll,
      parts_elseIf, or_and_right, exists_or]
    exact or_or_or_comm

end Fragment

end DataStep

end StepLang
