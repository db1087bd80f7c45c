import StepLang.Proofs.DataStep.Simulation

/-! # The statements that a run comes to

A run of a fragment comes to statements, each in a frame of its own. This relation says which
statements of a body are executed in an observation, at any depth and in any pass of a loop.
-/

namespace StepLang.DataStep

open Exec

/-- A pass of a loop over a range starts in the second frame when the loop goes on at a number in
the first one, at most so many passes on. -/
inductive RangePass (index : String) (increment stop : Float) (body : Exec Flow) :
    Nat → Float → Frame → Frame → Prop where
  | first {passes current f} : inRange increment stop current = true →
      RangePass index increment stop body (passes + 1) current f
        { f with vars := f.vars.set index (.number current) }
  | next {passes current f g h} : inRange increment stop current = true →
      body.out { f with vars := f.vars.set index (.number current) } = (.ok .next, g) →
      RangePass index increment stop body passes ((g.vars.get index).toNumber + increment) g h →
      RangePass index increment stop body (passes + 1) current f h

/-- A pass of a loop with a test starts in the second frame when the loop goes on in the first
one, at most so many passes on. -/
inductive LoopPass (before after : Exec Bool) (body : Exec Flow) : Nat → Frame → Frame → Prop where
  | first {passes f g} : before.out f = (.ok true, g) →
      LoopPass before after body (passes + 1) f g
  | next {passes f f₁ f₂ f₃ g} : before.out f = (.ok true, f₁) →
      body.out f₁ = (.ok .next, f₂) → after.out f₂ = (.ok true, f₃) →
      LoopPass before after body passes f₃ g → LoopPass before after body (passes + 1) f g

/-- Running a fragment from a frame comes to a statement, which then starts in another frame. -/
inductive Reaches (step : Step) (n : Nat) : Fragment → Frame → StepStatement → Frame → Prop where
  | here {s f} : Reaches step n (.one s) f s f
  | consequence {c s o f v g t h} : (eval step n c).out f = (.ok v, g) → v.isTrue = true →
      Reaches step n (.one s) g t h → Reaches step n (.one (.branch c s o)) f t h
  | others {c s o f v g t h} : (eval step n c).out f = (.ok v, g) → v.isTrue = false →
      Reaches step n (.others o) g t h → Reaches step n (.one (.branch c s o)) f t h
  | range {index first last increment body f a b c g h t k} :
      (bounds step n index first last increment).out f = (.ok (a, b, c), g) →
      RangePass index c b (runAll step n body) step.setting.loopLimit a g h →
      Reaches step n (.all body) h t k →
      Reaches step n (.one (.iterate index first last increment body)) f t k
  | whileLoop {c body f g t h} :
      LoopPass (holds step n c true) (pure true) (runAll step n body) step.setting.loopLimit f g →
      Reaches step n (.all body) g t h → Reaches step n (.one (.loop (.whileTrue c) body)) f t h
  | untilLoop {c body f g t h} :
      LoopPass (pure true) (holds step n c false) (runAll step n body) step.setting.loopLimit f g →
      Reaches step n (.all body) g t h → Reaches step n (.one (.loop (.untilTrue c) body)) f t h
  | block {body f t g} : Reaches step n (.all body) f t g →
      Reaches step n (.one (.block body)) f t g
  | head {s rest f t g} : Reaches step n (.one s) f t g → Reaches step n (.all (s :: rest)) f t g
  | tail {s rest f g t h} : (runOne step n s).out f = (.ok .next, g) →
      Reaches step n (.all rest) g t h → Reaches step n (.all (s :: rest)) f t h
  | otherwise {s f t g} : Reaches step n (.one s) f t g →
      Reaches step n (.others (.otherwise s)) f t g
  | elseIf {c s o f v g t h} : (eval step n c).out f = (.ok v, g) → v.isTrue = true →
      Reaches step n (.one s) g t h → Reaches step n (.others (.elseIf c s o)) f t h
  | further {c s o f v g t h} : (eval step n c).out f = (.ok v, g) → v.isTrue = false →
      Reaches step n (.others o) g t h → Reaches step n (.others (.elseIf c s o)) f t h

variable {step : Step} {n : Nat} {fragment : Fragment} {s t : StepStatement} {f g : Frame}

/-! ### What holds of the variables in every frame of a run -/

section Keeps

theorem RangePass.keeps {P : Frame → Prop} {index : String} {increment stop : Float}
    {body : Exec Flow} (hs : ∀ v, Keeps P (store index v)) (hb : Keeps P body) {passes : Nat}
    {current : Float} (h : RangePass index increment stop body passes current f g) (hf : P f) :
    P g := by
  induction h with
  | first _ => exact hs _ hf
  | next _ hg _ ih => exact ih (hb.of_out hg (hs _ hf))

theorem LoopPass.keeps {P : Frame → Prop} {before after : Exec Bool} {body : Exec Flow}
    (hbefore : Keeps P before) (hafter : Keeps P after) (hb : Keeps P body) {passes : Nat}
    (h : LoopPass before after body passes f g) (hf : P f) : P g := by
  induction h with
  | first h => exact hbefore.of_out h hf
  | next h h' h'' _ ih => exact ih (hafter.of_out h'' (hb.of_out h' (hbefore.of_out h hf)))

/-- What storing into the targets of its parts keeps true of the variables is true in every frame
that a run comes to. -/
theorem Reaches.keeps {J : Variables → Prop} (h : Reaches step n fragment f s g)
    (hs : ∀ s ∈ fragment.parts, ∀ name ∈ s.targets step.arrays, ∀ v vs, J vs → J (vs.set name v))
    (hf : J f.vars) : J g.vars := by
  have heval (e : Expression) : Keeps (fun f => J f.vars) (eval step n e) := keeps_vars_eval e
  induction h with
  | here => exact hf
  | consequence he _ _ ih =>
    simp only [Fragment.parts_branch, List.mem_cons, List.mem_append] at hs
    exact ih (fun t ht => hs t (Or.inr (Or.inl ht))) ((heval _).of_out he hf)
  | others he _ _ ih =>
    simp only [Fragment.parts_branch, List.mem_cons, List.mem_append] at hs
    exact ih (fun t ht => hs t (Or.inr (Or.inr ht))) ((heval _).of_out he hf)
  | @range index first last increment body f a b c g h t k he hp _ ih =>
    simp only [Fragment.parts_iterate, List.mem_cons] at hs
    have hb := fun t ht => hs t (Or.inr ht)
    have hindex (v : Value) : Keeps (fun f => J f.vars) (store index v) := fun f =>
      hs _ (Or.inl rfl) index (List.mem_singleton_self _) v f.vars
    have hg : J g.vars := (keeps_bounds heval index first last increment).of_out he hf
    exact ih hb (hp.keeps hindex ((Fragment.all body).run_keeps_vars hb) hg)
  | @whileLoop c body f g t h hp _ ih =>
    simp only [Fragment.parts_loop, List.mem_cons] at hs
    have hb := fun t ht => hs t (Or.inr ht)
    exact ih hb (hp.keeps (keeps_holds heval c true) (keeps_pure true)
      ((Fragment.all body).run_keeps_vars hb) hf)
  | @untilLoop c body f g t h hp _ ih =>
    simp only [Fragment.parts_loop, List.mem_cons] at hs
    have hb := fun t ht => hs t (Or.inr ht)
    exact ih hb (hp.keeps (keeps_pure true) (keeps_holds heval c false)
      ((Fragment.all body).run_keeps_vars hb) hf)
  | block _ ih =>
    simp only [Fragment.parts_block, List.mem_cons] at hs
    exact ih (fun t ht => hs t (Or.inr ht)) hf
  | head _ ih =>
    simp only [Fragment.parts_cons, List.mem_append] at hs
    exact ih (fun t ht => hs t (Or.inl ht)) hf
  | @tail s rest f g t h he _ ih =>
    simp only [Fragment.parts_cons, List.mem_append] at hs
    have hone : Keeps (fun f => J f.vars) (runOne step n s) :=
      (Fragment.one s).run_keeps_vars fun t ht => hs t (Or.inl ht)
    exact ih (fun t ht => hs t (Or.inr ht)) (hone.of_out he hf)
  | otherwise _ ih =>
    rw [Fragment.parts_otherwise] at hs
    exact ih hs hf
  | elseIf he _ _ ih =>
    simp only [Fragment.parts_elseIf, List.mem_append] at hs
    exact ih (fun t ht => hs t (Or.inl ht)) ((heval _).of_out he hf)
  | further he _ _ ih =>
    simp only [Fragment.parts_elseIf, List.mem_append] at hs
    exact ih (fun t ht => hs t (Or.inr ht)) ((heval _).of_out he hf)

end Keeps

end StepLang.DataStep
