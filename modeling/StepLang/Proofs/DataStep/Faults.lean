import StepLang.Proofs.DataStep.History

/-! # How observations fail

An observation fails at a function, an array or a loop, and in no other way. In particular none of
the statements of a step is refused when it is run.
-/

namespace StepLang

/-- The errors of functions, arrays and loops. -/
def Error.IsFault : Error → Prop
  | .undefinedFunction _ | .invalidArguments .. | .undefinedArray _ | .subscriptOutOfRange ..
  | .zeroIncrement _ | .invalidBounds .. | .tooManyIterations _ => True
  | _ => False

variable {α β : Type}

/-- An error of the result is one of a function, an array or a loop. -/
def OnlyFaults (r : Except Error α) : Prop := ∀ e, r = .error e → e.IsFault

/-! ### Evaluation -/

theorem OnlyFaults.ok {a : α} : OnlyFaults (.ok a) := by
  rintro _ ⟨⟩

theorem OnlyFaults.error {e : Error} (h : e.IsFault) : OnlyFaults (.error e : Except Error α) := by
  rintro _ ⟨⟩
  exact h

theorem OnlyFaults.bind {r : Except Error α} {k : α → Except Error β} (hr : OnlyFaults r)
    (hk : ∀ a, OnlyFaults (k a)) : OnlyFaults (r >>= k) := by
  cases r with
  | error e => exact .error (hr e rfl)
  | ok a => exact hk a

theorem onlyFaults_call (today : Int) (function : String) (args : List Value) :
    OnlyFaults (Function.call today function args) := by
  unfold Function.call
  split
  · exact .error trivial
  · split
    · exact .error trivial
    · exact .ok

theorem onlyFaults_dimension (scope : Scope) (args : List Expression) :
    OnlyFaults (dimension scope args) := by
  unfold dimension
  split
  · split
    · exact .ok
    · exact .error trivial
  · exact .error trivial

theorem onlyFaults_subscript (array : String) (size : Option Nat) (v : Value) :
    OnlyFaults (subscript array size v) := by
  unfold subscript
  dsimp only
  split
  · exact .error trivial
  · exact .ok

theorem onlyFaults_evaluate {scope : Scope} (h : ∀ array i, OnlyFaults (scope.element array i)) :
    (∀ e, OnlyFaults (evaluate scope e)) ∧ ∀ es, OnlyFaults (evaluateAll scope es) := by
  apply evaluate.mutual_induct scope
  case case1 => exact fun _ => .ok
  case case2 => exact fun _ => .ok
  case case3 => exact .ok
  case case4 => exact fun _ => .ok
  case case5 =>
    intro name text htext
    rw [evaluate, htext]
    exact .ok
  case case6 =>
    intro name htext
    rw [evaluate, htext]
    exact .ok
  case case7 =>
    intro left right ihl ihr
    rw [evaluate]
    refine ihl.bind fun v => ?_
    split
    · exact ihr.bind fun _ => .ok
    · exact .ok
  case case8 =>
    intro left right ihl ihr
    rw [evaluate]
    refine ihl.bind fun v => ?_
    split
    · exact .ok
    · exact ihr.bind fun _ => .ok
  case case9 =>
    intro op left right hand hor ihl ihr
    rw [evaluate]
    · exact ihl.bind fun v => ihr.bind fun w => .ok
    · exact hand
    · exact hor
  case case10 =>
    intro op operand ih
    rw [evaluate]
    exact ih.bind fun _ => .ok
  case case11 =>
    intro function args hdim
    rw [evaluate, if_pos hdim]
    exact onlyFaults_dimension scope args
  case case12 =>
    intro function args hdim ih
    rw [evaluate, if_neg hdim]
    exact ih.bind fun values => onlyFaults_call _ _ _
  case case13 =>
    intro array index ih
    rw [evaluate]
    exact ih.bind fun v => (onlyFaults_subscript _ _ _).bind fun i => h array i
  case case14 => exact .ok
  case case15 =>
    intro e es ihe ihes
    rw [evaluateAll]
    exact ihe.bind fun v => ihes.bind fun vs => .ok

namespace DataStep

theorem onlyFaults_elementVariable (arrays : NameMap ArrayDef) (array : String) (i : Int) :
    OnlyFaults (elementVariable arrays array i) := by
  unfold elementVariable
  split
  · exact .error trivial
  · split
    · exact .error trivial
    · split
      · exact .ok
      · exact .error trivial

namespace Exec

/-! ### Statements -/

/-- Whatever the frame is, the computation fails with errors of functions, arrays and loops only. -/
def Faults (m : Exec α) : Prop := ∀ f, OnlyFaults (m.out f).1

namespace Faults

theorem pure (a : α) : Faults (Pure.pure a : Exec α) := fun _ => .ok

theorem ofExcept {r : Except Error α} (h : OnlyFaults r) : Faults (ofExcept r) := by
  intro f
  rw [out_ofExcept]
  exact h

theorem bind {m : Exec α} {k : α → Exec β} (hm : Faults m) (hk : ∀ a, Faults (k a)) :
    Faults (m >>= k) := by
  intro f
  have hf := hm f
  rw [out_bind]
  generalize m.out f = x at hf
  obtain ⟨r, g⟩ := x
  cases r with
  | error e => exact .error (hf e rfl)
  | ok a => exact hk a g

theorem read {k : Frame → Exec β} (hk : ∀ f, Faults (k f)) : Faults (get >>= k) :=
  fun f => hk f f

theorem store (name : String) (v : Value) : Faults (store name v) := fun _ => .ok

end Faults

variable (step : Step) (n : Nat)

theorem faults_eval (e : Expression) : Faults (eval step n e) := by
  intro f
  rw [out_eval]
  refine (onlyFaults_evaluate fun array i => ?_).1 e
  exact (onlyFaults_elementVariable _ _ _).bind fun _ => .ok

theorem faults_assign (target : Target) (value : Expression) :
    Faults (assign step n target value) := by
  refine (faults_eval step n value).bind fun v => ?_
  cases target with
  | ref name => exact .store name v
  | element array index =>
    refine (faults_eval step n index).bind fun i => ?_
    refine (Faults.ofExcept (onlyFaults_subscript _ _ _)).bind fun j => ?_
    exact (Faults.ofExcept (onlyFaults_elementVariable _ _ _)).bind fun name => .store name v

theorem onlyFaults_checkBounds (index : String) (start stop increment : Float) :
    OnlyFaults (checkBounds index start stop increment) := by
  unfold checkBounds
  repeat' split
  all_goals first
    | exact .error trivial
    | exact .ok

/-- Failing with those errors only passes to what is put together from such computations. -/
theorem composes_faults : Composes step n fun m => Faults m where
  pure := .pure
  bind := .bind
  eval := faults_eval step n
  check _ _ _ _ := .ofExcept (onlyFaults_checkBounds _ _ _ _)
  tooMany _ _ := .error trivial

end Exec

open Exec

variable {step : Step} {n : Nat}

/-- Running a fragment fails with errors of functions, arrays and loops only. -/
theorem Fragment.run_faults (fragment : Fragment) : Faults (fragment.run step n) := by
  refine (composes_faults step n).run (fun _ _ => .ok) fragment fun s _ => ?_
  cases s with
  | assign target value => exact faults_assign step n target value
  | iterate index first last increment body => exact ⟨.store index, fun _ hk => .read fun f => hk _⟩
  | _ => trivial

theorem isFault_of_error {body : List StepStatement} {vs : Variables} {row : Option Row} {e : Error}
    (h : (step.process body n vs row).error? = some e) : e.IsFault := by
  have hfaults : Faults (runAll step n body) := (Fragment.all body).run_faults
  have hstart := hfaults (step.process body n vs row).start e
  rw [process_out] at hstart
  unfold Observation.error? at h
  split at h
  · rename_i hresult
    obtain rfl := Option.some.inj h
    exact hstart hresult
  · cases h

/-- The observations of a step that runs fail with errors of functions, arrays and loops only. -/
theorem isFault_of_runStep {setting : Setting} {body : List StepStatement} {lines : List LogLine}
    {outcome : Outcome} (h : runStep setting body = (lines, .ok outcome)) {e : Error}
    (he : e ∈ outcome.errors) : e.IsFault := by
  cases hcompile : compile setting body with
  | mk notes r =>
    cases r with
    | error e =>
      rw [runStep, hcompile] at h
      cases h
    | ok planned =>
      obtain ⟨log, hrun⟩ := runStep_of_compile hcompile
      rw [hrun] at h
      obtain rfl := Except.ok.inj (Prod.mk.inj h).2
      rw [execute_eq] at he
      obtain ⟨o, ho, herror⟩ := List.mem_filterMap.mp he
      obtain ⟨ws, row, -, hprocess⟩ := exists_of_mem_history ho
      rw [hprocess] at herror
      exact isFault_of_error herror

end DataStep

end StepLang
