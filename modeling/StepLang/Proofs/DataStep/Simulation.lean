import StepLang.Proofs.DataStep.Fragment
import StepLang.Proofs.Table

/-! # Properties of runs

A property that evaluation has and that passes to what is put together holds of the run of every
fragment. One is to respect a relation between frames: the runs of a computation from related frames
have the same result and leave related frames. An invariant is the case of a relation on equal
frames.
-/

namespace StepLang

/-- The variables that a statement by itself stores into, where `arrays` says what the elements of
an array are. -/
def StepStatement.targets (arrays : NameMap DataStep.ArrayDef) : StepStatement → List String
  | .assign (.ref name) _ => [name]
  | .assign (.element a _) _ => ((arrays.find? a).map DataStep.ArrayDef.vars).getD []
  | .iterate index .. => [index]
  | _ => []

def StepStatement.indices : StepStatement → List String
  | .iterate index .. => [index]
  | _ => []

namespace DataStep

namespace Exec

variable {α β : Type}

/-- What a computation does from a frame: its result and the frame that it leaves. -/
def out (m : Exec α) (f : Frame) : Except Error α × Frame := m.run.run f

@[simp] theorem out_pure (a : α) (f : Frame) : (pure a : Exec α).out f = (.ok a, f) := rfl

@[simp] theorem out_throw (e : Error) (f : Frame) : (throw e : Exec α).out f = (.error e, f) := rfl

@[simp] theorem out_modify (g : Frame → Frame) (f : Frame) :
    (modify g : Exec Unit).out f = (.ok (), g f) := rfl

@[simp] theorem out_get_bind (k : Frame → Exec β) (f : Frame) :
    (get >>= k).out f = (k f).out f := rfl

theorem out_bind (m : Exec α) (k : α → Exec β) (f : Frame) :
    (m >>= k).out f =
      match m.out f with
      | (.ok a, g) => (k a).out g
      | (.error e, g) => (.error e, g) := by
  simp only [out, ExceptT.run_bind, StateT.run_bind]
  show (match StateT.run (ExceptT.run m) f with | (a, s) => _) = _
  obtain ⟨r, g⟩ := StateT.run (ExceptT.run m) f
  cases r <;> rfl

@[simp] theorem out_ofExcept (r : Except Error α) (f : Frame) : (ofExcept r).out f = (r, f) := by
  cases r <;> rfl

theorem out_eval (step : Step) (n : Nat) (e : Expression) (f : Frame) :
    (eval step n e).out f =
      (evaluate (step.scope n f.vars) e,
        { f with log := f.log ++ evaluationLog (step.scope n f.vars) e }) := by
  unfold eval
  rw [out_get_bind]
  by_cases h : e.hasMacro = true
  · rw [if_pos h, out_bind, out_modify]
    exact out_ofExcept _ _
  · rw [if_neg h]
    simp [evaluationLog, h]

@[simp] theorem out_store (name : String) (v : Value) (f : Frame) :
    (store name v).out f = (.ok (), { f with vars := f.vars.set name v }) := rfl

theorem out_store_bind (name : String) (v : Value) (k : Unit → Exec β) (f : Frame) :
    (store name v >>= k).out f = (k ()).out { f with vars := f.vars.set name v } := rfl

/-- The increment of a loop over a range, which is one unless it is given. -/
def evalIncrement (step : Step) (n : Nat) : Option Expression → Exec Float
  | some e => do return (← eval step n e).toNumber
  | none => return 1.0

/-- The start, the end and the increment of a loop over a range, none of them missing. -/
def bounds (step : Step) (n : Nat) (index : String) (first last : Expression)
    (increment : Option Expression) : Exec (Float × Float × Float) := do
  let a ← eval step n first
  let b ← eval step n last
  let c ← evalIncrement step n increment
  ofExcept (checkBounds index a.toNumber b.toNumber c)
  return (a.toNumber, b.toNumber, c)

theorem runOne_iterate (step : Step) (n : Nat) (index : String) (first last : Expression)
    (increment : Option Expression) (body : List StepStatement) :
    runOne step n (.iterate index first last increment body) =
      bounds step n index first last increment >>= fun (a, b, c) =>
        repeatRange index c b step.setting.loopLimit (runAll step n body)
          step.setting.loopLimit a := by
  unfold runOne
  cases increment with
  | none => simp only [bounds, evalIncrement, bind_assoc, pure_bind]
  | some e => simp only [bounds, evalIncrement, bind_assoc, pure_bind]

/-! ### Properties of whole runs -/

/-- A property of computations that evaluation has and that passes to what is put together from
computations that have it. -/
structure Composes (step : Step) (n : Nat) (M : {γ : Type} → Exec γ → Prop) : Prop where
  pure {γ : Type} (a : γ) : M (Pure.pure a : Exec γ)
  bind {γ δ : Type} {m : Exec γ} {k : γ → Exec δ} : M m → (∀ a, M (k a)) → M (m >>= k)
  eval (e : Expression) : M (eval step n e)
  check (index : String) (start stop increment : Float) :
    M (ofExcept (checkBounds index start stop increment))
  tooMany (limit : Nat) : M (throw (.tooManyIterations limit) : Exec Flow)

/-- The property holds of what a loop does with its index: of storing into it and of going on with
its value. -/
structure Counter (M : {γ : Type} → Exec γ → Prop) (index : String) : Prop where
  store (v : Value) : M (store index v)
  read (k : Value → Exec Flow) : (∀ v, M (k v)) → M (get >>= fun f => k (f.vars.get index))

/-- The property holds of what a statement by itself does to the variables. -/
def Composes.Own (step : Step) (n : Nat) (M : {γ : Type} → Exec γ → Prop) : StepStatement → Prop
  | .assign target value => M (assign step n target value)
  | .iterate index .. => Counter M index
  | _ => True

namespace Composes

variable {step : Step} {n : Nat} {M : {γ : Type} → Exec γ → Prop}

theorem choice {c : Prop} [Decidable c] {m m' : Exec α} (hm : M m) (hm' : M m') :
    M (if c then m else m') := by
  split
  · exact hm
  · exact hm'

variable (hM : Composes step n M)

include hM

theorem holds (c : Expression) (b : Bool) : M (holds step n c b) :=
  hM.bind (hM.eval c) fun _ => hM.pure _

theorem evalIncrement (increment : Option Expression) : M (evalIncrement step n increment) := by
  cases increment with
  | none => exact hM.pure _
  | some e => exact hM.bind (hM.eval e) fun _ => hM.pure _

theorem bounds (index : String) (first last : Expression) (increment : Option Expression) :
    M (bounds step n index first last increment) :=
  hM.bind (hM.eval first) fun _ => hM.bind (hM.eval last) fun _ =>
    hM.bind (hM.evalIncrement increment) fun _ => hM.bind (hM.check _ _ _ _) fun _ => hM.pure _

theorem repeatRange {index : String} {increment stop : Float} {limit : Nat} {body : Exec Flow}
    (hi : Counter M index) (hb : M body) (passes : Nat) (current : Float) :
    M (repeatRange index increment stop limit body passes current) := by
  have hend (x : Float) : M (do Exec.store index (.number x); return Flow.next) :=
    hM.bind (hi.store _) fun _ => hM.pure _
  induction passes generalizing current with
  | zero =>
    unfold Exec.repeatRange
    exact choice (hM.tooMany _) (hend current)
  | succ passes ih =>
    unfold Exec.repeatRange
    refine choice (hM.bind (hi.store _) fun _ => hM.bind hb fun flow => ?_) (hend current)
    cases flow with
    | next =>
      exact hi.read
        (fun v => Exec.repeatRange index increment stop limit body passes (v.toNumber + increment))
        fun v => ih _
    | delete => exact hM.pure _
    | stop => exact hM.pure _

theorem repeatLoop {limit : Nat} {before after : Exec Bool} {body : Exec Flow} (hbefore : M before)
    (hafter : M after) (hb : M body) (passes : Nat) :
    M (repeatLoop limit before after body passes) := by
  induction passes with
  | zero => exact hM.tooMany limit
  | succ passes ih =>
    unfold Exec.repeatLoop
    refine hM.bind hbefore fun _ => choice (hM.bind hb fun flow => ?_) (hM.pure _)
    cases flow with
    | next => exact hM.bind hafter fun _ => choice ih (hM.pure _)
    | delete => exact hM.pure _
    | stop => exact hM.pure _

theorem runSimple (hq : ∀ names, M (request step names)) {s : StepStatement}
    (h : s.isSimple = true) (hs : Own step n M s) : M (runOne step n s) := by
  cases s with
  | assign target value =>
    unfold runOne
    exact hM.bind hs fun _ => hM.pure _
  | subset c =>
    unfold runOne
    exact hM.bind (hM.eval c) fun _ => choice (hM.pure _) (hM.pure _)
  | output names =>
    unfold runOne
    exact hM.bind (hq names) fun _ => hM.pure _
  | branch | iterate | loop | block => cases h
  | _ =>
    unfold runOne
    exact hM.pure _

/-- A property that passes to what is put together holds of every fragment, if it holds of what
each of its parts does to the variables. -/
theorem run (hq : ∀ names, M (request step names)) (fragment : Fragment)
    (hs : ∀ s ∈ fragment.parts, Own step n M s) :
    M (fragment.run step n) := by
  induction fragment using Fragment.induct with
  | simple s h =>
    rw [Fragment.parts_simple h] at hs
    exact hM.runSimple hq h (hs s (List.mem_singleton_self s))
  | branch c s o ihs iho =>
    simp only [Fragment.parts_branch, List.mem_cons, List.mem_append] at hs
    simp only [Fragment.run] at ihs iho ⊢
    unfold runOne
    exact hM.bind (hM.eval c) fun _ => choice (ihs fun t ht => hs t (Or.inr (Or.inl ht)))
      (iho fun t ht => hs t (Or.inr (Or.inr ht)))
  | iterate index first last increment body ih =>
    simp only [Fragment.parts_iterate, List.mem_cons] at hs
    simp only [Fragment.run, runOne_iterate] at ih ⊢
    exact hM.bind (hM.bounds index first last increment) fun _ =>
      hM.repeatRange (hs _ (Or.inl rfl)) (ih fun t ht => hs t (Or.inr ht)) _ _
  | loop test body ih =>
    simp only [Fragment.parts_loop, List.mem_cons] at hs
    simp only [Fragment.run] at ih ⊢
    have hb := ih fun t ht => hs t (Or.inr ht)
    cases test with
    | whileTrue c =>
      unfold runOne
      exact hM.repeatLoop (hM.holds c true) (hM.pure _) hb _
    | untilTrue c =>
      unfold runOne
      exact hM.repeatLoop (hM.pure _) (hM.holds c false) hb _
  | block body ih =>
    simp only [Fragment.parts_block, List.mem_cons] at hs
    simp only [Fragment.run] at ih ⊢
    unfold runOne
    exact ih fun t ht => hs t (Or.inr ht)
  | nil =>
    simp only [Fragment.run]
    unfold runAll
    exact hM.pure _
  | cons s rest ihs ihr =>
    simp only [Fragment.parts_cons, List.mem_append] at hs
    simp only [Fragment.run] at ihs ihr ⊢
    unfold runAll
    refine hM.bind (ihs fun t ht => hs t (Or.inl ht)) fun flow => ?_
    cases flow with
    | next => exact ihr fun t ht => hs t (Or.inr ht)
    | delete => exact hM.pure _
    | stop => exact hM.pure _
  | none =>
    simp only [Fragment.run]
    unfold runOthers
    exact hM.pure _
  | otherwise s ih =>
    rw [Fragment.parts_otherwise] at hs
    simp only [Fragment.run] at ih ⊢
    unfold runOthers
    exact ih hs
  | elseIf c s o ihs iho =>
    simp only [Fragment.parts_elseIf, List.mem_append] at hs
    simp only [Fragment.run] at ihs iho ⊢
    unfold runOthers
    exact hM.bind (hM.eval c) fun _ => choice (ihs fun t ht => hs t (Or.inl ht))
      (iho fun t ht => hs t (Or.inr ht))

end Composes

/-! ### Related frames -/

/-- Runs of a computation from related frames have the same result and leave related frames. -/
def Respects (R : Frame → Frame → Prop) (m : Exec α) : Prop :=
  ∀ ⦃f g⦄, R f g → (m.out f).1 = (m.out g).1 ∧ R (m.out f).2 (m.out g).2

variable {R : Frame → Frame → Prop}

theorem Respects.pure (a : α) : Respects R (Pure.pure a : Exec α) :=
  fun _ _ h => ⟨rfl, h⟩

theorem Respects.throw (e : Error) : Respects R (MonadExcept.throw e : Exec α) :=
  fun _ _ h => ⟨rfl, h⟩

theorem Respects.ofExcept (r : Except Error α) : Respects R (ofExcept r) := by
  intro f g h
  rw [out_ofExcept, out_ofExcept]
  exact ⟨rfl, h⟩

theorem Respects.bind {m : Exec α} {k : α → Exec β} (hm : Respects R m)
    (hk : ∀ a, Respects R (k a)) : Respects R (m >>= k) := by
  intro f g h
  have hfg := hm h
  rw [out_bind, out_bind]
  generalize m.out f = x at hfg
  generalize m.out g = y at hfg
  obtain ⟨r, f'⟩ := x
  obtain ⟨r', g'⟩ := y
  obtain ⟨he, hr⟩ := hfg
  simp only at he hr
  subst he
  cases r with
  | error e => exact ⟨rfl, hr⟩
  | ok a => exact hk a hr

theorem Respects.read {γ : Type} (look : Frame → γ) (k : γ → Exec β)
    (hl : ∀ f g, R f g → look f = look g) (hk : ∀ c, Respects R (k c)) :
    Respects R (get >>= fun f => k (look f)) := by
  intro f g h
  rw [out_get_bind, out_get_bind, hl f g h]
  exact hk (look g) h

/-- Evaluation respects a relation between frames with the same scopes that does not look at how
far the logs have come. -/
theorem Respects.eval {step : Step} {n : Nat}
    (hs : ∀ f g, R f g → step.scope n f.vars = step.scope n g.vars)
    (hl : ∀ f g (lines : List LogLine), R f g →
      R { f with log := f.log ++ lines } { g with log := g.log ++ lines }) (e : Expression) :
    Respects R (eval step n e) := by
  intro f g h
  rw [out_eval, out_eval, hs f g h]
  exact ⟨rfl, hl f g _ h⟩

/-- What an element of an array stands for is one of the variables of the array. -/
theorem mem_of_elementVariable {arrays : NameMap ArrayDef} {array name : String} {i : Int}
    (h : elementVariable arrays array i = .ok name) :
    ∃ a, arrays.find? array = some a ∧ name ∈ a.vars := by
  unfold elementVariable at h
  split at h
  · cases h
  · next a ha =>
    refine ⟨a, ha, ?_⟩
    split at h
    · cases h
    · split at h
      · next hv =>
        obtain rfl := Except.ok.inj h
        exact List.mem_of_getElem? hv
      · cases h

/-- Assignment stores into the targets of its statement only. -/
theorem assign_respects {step : Step} {n : Nat} {target : Target} {value : Expression}
    (he : ∀ e, Respects R (eval step n e))
    (hs : ∀ name ∈ (StepStatement.assign target value).targets step.arrays, ∀ v,
      Respects R (store name v)) : Respects R (assign step n target value) := by
  unfold assign
  refine Respects.bind (he value) fun v => ?_
  cases target with
  | ref name => exact hs name (List.mem_singleton_self _) v
  | element array index =>
    refine Respects.bind (he index) fun i => Respects.bind (Respects.ofExcept _) fun j => ?_
    cases hx : elementVariable step.arrays array j with
    | error e => exact Respects.throw e
    | ok name =>
      obtain ⟨a, ha, hn⟩ := mem_of_elementVariable hx
      exact hs name (by simpa [StepStatement.targets, ha] using hn) v

/-- What respects a relation passes to what is put together from it. -/
theorem composes_respects {step : Step} {n : Nat} (he : ∀ e, Respects R (eval step n e)) :
    Composes step n fun m => Respects R m where
  pure := Respects.pure
  bind := Respects.bind
  eval := he
  check _ _ _ _ := Respects.ofExcept _
  tooMany _ := Respects.throw _

/-! ### Invariants -/

/-- What holds of the frame from which a computation runs holds of the frame that it leaves. -/
def Keeps (P : Frame → Prop) (m : Exec α) : Prop := ∀ ⦃f⦄, P f → P (m.out f).2

section Keeps

variable {P : Frame → Prop} {step : Step} {n : Nat}

theorem keeps_iff_respects {m : Exec α} :
    Keeps P m ↔ Respects (fun f g => f = g ∧ P f) m := by
  constructor
  · rintro h f g ⟨rfl, hf⟩
    exact ⟨rfl, rfl, h hf⟩
  · intro h f hf
    exact (h ⟨rfl, hf⟩).2.2

theorem Keeps.of_out {m : Exec α} (hm : Keeps P m) {r : Except Error α} {f g : Frame}
    (h : m.out f = (r, g)) (hf : P f) : P g := by
  have := hm hf
  rwa [h] at this

theorem keeps_pure (a : α) : Keeps P (pure a : Exec α) :=
  fun _ h => h

theorem keeps_eval (hl : ∀ f (log : Log), P f → P { f with log }) (e : Expression) :
    Keeps P (eval step n e) := by
  intro f hf
  rw [out_eval]
  exact hl f _ hf

variable (he : ∀ e, Keeps P (eval step n e))

include he

theorem keeps_holds (c : Expression) (b : Bool) : Keeps P (holds step n c b) :=
  keeps_iff_respects.mpr ((composes_respects fun e => keeps_iff_respects.mp (he e)).holds c b)

theorem keeps_bounds (index : String) (first last : Expression) (increment : Option Expression) :
    Keeps P (bounds step n index first last increment) :=
  keeps_iff_respects.mpr
    ((composes_respects fun e => keeps_iff_respects.mp (he e)).bounds index first last increment)

theorem keeps_assign {target : Target} {value : Expression}
    (hs : ∀ name ∈ (StepStatement.assign target value).targets step.arrays, ∀ v,
      Keeps P (store name v)) : Keeps P (assign step n target value) :=
  keeps_iff_respects.mpr (assign_respects (fun e => keeps_iff_respects.mp (he e))
    fun name hn v => keeps_iff_respects.mp (hs name hn v))

end Keeps

end Exec

open Exec in
/-- If the operations that the parts of a fragment are made of respect a relation, so does the
fragment. -/
theorem Fragment.run_respects {R : Frame → Frame → Prop} {step : Step} {n : Nat}
    (he : ∀ e, Respects R (eval step n e)) (hq : ∀ names, Respects R (request step names))
    (fragment : Fragment)
    (hs : ∀ s ∈ fragment.parts, ∀ name ∈ s.targets step.arrays, ∀ v, Respects R (store name v))
    (hr : ∀ s ∈ fragment.parts, ∀ index ∈ s.indices, ∀ f g, R f g →
      f.vars.get index = g.vars.get index) : Respects R (fragment.run step n) := by
  refine (composes_respects he).run hq fragment fun s hm => ?_
  cases s with
  | assign target value => exact assign_respects he (hs _ hm)
  | iterate index first last increment body =>
    have hindex : index ∈ (StepStatement.iterate index first last increment body).indices :=
      List.mem_singleton_self index
    exact ⟨hs _ hm index hindex, fun k hk =>
      Respects.read (fun f => f.vars.get index) k (hr _ hm index hindex) hk⟩
  | _ => trivial

open Exec in
/-- What the operations that the parts of a fragment are made of keep, the fragment keeps. -/
theorem Fragment.run_keeps {P : Frame → Prop} {step : Step} {n : Nat}
    (he : ∀ e, Keeps P (eval step n e)) (hq : ∀ names, Keeps P (request step names))
    (fragment : Fragment)
    (hs : ∀ s ∈ fragment.parts, ∀ name ∈ s.targets step.arrays, ∀ v, Keeps P (store name v)) :
    Keeps P (fragment.run step n) := by
  rw [keeps_iff_respects]
  apply fragment.run_respects
  · exact fun e => keeps_iff_respects.mp (he e)
  · exact fun names => keeps_iff_respects.mp (hq names)
  · exact fun s hm name hn v => keeps_iff_respects.mp (hs s hm name hn v)
  · rintro s - index - f g ⟨rfl, -⟩
    rfl

section Vars

open Exec

variable {J : Variables → Prop} {step : Step} {n : Nat}

theorem keeps_vars_eval (e : Expression) : Keeps (fun f => J f.vars) (eval step n e) :=
  keeps_eval (fun _ _ h => h) e

/-- What storing into the targets of its parts keeps true of the variables, a fragment keeps
true. -/
theorem Fragment.run_keeps_vars (fragment : Fragment)
    (hs : ∀ s ∈ fragment.parts, ∀ name ∈ s.targets step.arrays, ∀ v vs, J vs → J (vs.set name v)) :
    Keeps (fun f => J f.vars) (fragment.run step n) := by
  apply fragment.run_keeps keeps_vars_eval
  · intro names f h
    simp only [request, out_modify]
    split <;> exact h
  · exact fun s hm name hn v f h => hs s hm name hn v f.vars h

end Vars

end DataStep

end StepLang
