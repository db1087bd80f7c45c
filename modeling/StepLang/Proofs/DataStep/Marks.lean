import StepLang.Proofs.DataStep.Reach

/-! # What statements leave behind

Some statements leave a mark on the run that comes to them: they end it in some way, or ask for an
output. A run bears a mark at its end exactly if it bore it before or came to a statement that
leaves it.
-/

namespace StepLang.DataStep

open Exec

variable {step : Step} {n : Nat}

/-- A property of how statements end that can be told from the way in which they end and from the
outputs asked for, and that neither going on nor failing changes. -/
structure IsMark (mark : Except Error Flow → Frame → Prop) : Prop where
  next : ∀ {f g : Frame}, f.requested = g.requested → (mark (.ok .next) f ↔ mark (.ok .next) g)
  error : ∀ {f g : Frame} (e : Error), f.requested = g.requested →
    (mark (.error e) f ↔ mark (.ok .next) g)

/-- Running the computation leaves the mark exactly from the frames of `E`. -/
def Leaves (mark : Except Error Flow → Frame → Prop) (m : Exec Flow) (E : Frame → Prop) : Prop :=
  ∀ f, mark (m.out f).1 (m.out f).2 ↔ mark (.ok .next) f ∨ E f

def AsksNothing {α : Type} (m : Exec α) : Prop :=
  ∀ requested, Keeps (fun f => f.requested = requested) m

theorem asksNothing_eval (e : Expression) : AsksNothing (eval step n e) :=
  fun _ => keeps_eval (fun _ _ h => h) e

theorem asksNothing_holds (c : Expression) (b : Bool) : AsksNothing (holds step n c b) :=
  fun l => keeps_holds (fun e => asksNothing_eval e l) c b

theorem asksNothing_bounds (index : String) (first last : Expression)
    (increment : Option Expression) : AsksNothing (bounds step n index first last increment) :=
  fun l => keeps_bounds (fun e => asksNothing_eval e l) index first last increment

theorem asksNothing_assign (target : Target) (value : Expression) :
    AsksNothing (assign step n target value) :=
  fun l => keeps_assign (fun e => asksNothing_eval e l) fun _ _ _ _ h => h

section Leaves

variable {mark : Except Error Flow → Frame → Prop} {E E' : Frame → Prop}

theorem Leaves.congr {m : Exec Flow} (h : Leaves mark m E) (he : ∀ f, E f ↔ E' f) :
    Leaves mark m E' :=
  fun f => (h f).trans (or_congr_right (he f))

/-- A computation that asks for nothing hands the mark on to what follows it. -/
theorem Leaves.after {α : Type} (hmark : IsMark mark) {m : Exec α} {k : α → Exec Flow}
    {E : α → Frame → Prop} (hm : AsksNothing m) (hk : ∀ a, Leaves mark (k a) (E a)) :
    Leaves mark (m >>= k) fun f => ∃ a g, m.out f = (.ok a, g) ∧ E a g := by
  intro f
  have hf := hm f.requested rfl
  rw [out_bind]
  dsimp only
  generalize m.out f = x at hf ⊢
  obtain ⟨r, g⟩ := x
  cases r with
  | error e => simpa using hmark.error e hf
  | ok a =>
    rw [hk a g, hmark.next hf]
    refine or_congr_right ⟨fun h => ⟨a, g, rfl, h⟩, ?_⟩
    rintro ⟨a', g', hx, h⟩
    cases hx
    exact h

theorem Leaves.andThen {m : Exec Flow} {k : Flow → Exec Flow} (hm : Leaves mark m E)
    (hk : Leaves mark (k .next) E') (hp : ∀ flow, flow ≠ .next → k flow = pure flow) :
    Leaves mark (m >>= k) fun f => E f ∨ ∃ g, m.out f = (.ok .next, g) ∧ E' g := by
  intro f
  have hf := hm f
  rw [out_bind]
  dsimp only
  generalize m.out f = x at hf ⊢
  obtain ⟨r, g⟩ := x
  cases r with
  | error e => simpa using hf
  | ok flow =>
    by_cases hn : flow = .next
    · subst hn
      rw [hk g, hf, or_assoc]
      refine or_congr_right (or_congr_right ⟨fun h => ⟨g, rfl, h⟩, ?_⟩)
      rintro ⟨g', hx, h⟩
      cases hx
      exact h
    · simpa [hp flow hn, hn] using hf

theorem leaves_pure_next : Leaves mark (pure .next) fun _ => False :=
  fun _ => (or_iff_left id).symm

theorem rangePass_succ_iff {index : String} {increment stop : Float} {body : Exec Flow}
    {passes : Nat} {current : Float} {f h : Frame} :
    RangePass index increment stop body (passes + 1) current f h ↔
      inRange increment stop current = true ∧
        (h = { f with vars := f.vars.set index (.number current) } ∨
          ∃ g, body.out { f with vars := f.vars.set index (.number current) } = (.ok .next, g) ∧
            RangePass index increment stop body passes ((g.vars.get index).toNumber + increment)
              g h) := by
  constructor
  · intro hp
    cases hp with
    | first hr => exact ⟨hr, Or.inl rfl⟩
    | next hr hb hp => exact ⟨hr, Or.inr ⟨_, hb, hp⟩⟩
  · rintro ⟨hr, rfl | ⟨g, hb, hp⟩⟩
    · exact .first hr
    · exact .next hr hb hp

/-- What the passes of a loop over a range leave. -/
theorem leaves_repeatRange (hmark : IsMark mark) {index : String} {increment stop : Float}
    {limit : Nat} {body : Exec Flow} (hb : Leaves mark body E) (passes : Nat) (current : Float) :
    Leaves mark (repeatRange index increment stop limit body passes current) fun f =>
      ∃ g, RangePass index increment stop body passes current f g ∧ E g := by
  induction passes generalizing current with
  | zero =>
    intro f
    have hnone : ¬ ∃ g, RangePass index increment stop body 0 current f g ∧ E g := by
      rintro ⟨g, hp, -⟩
      cases hp
    rw [or_iff_left hnone]
    unfold repeatRange
    split
    · rw [out_throw]
      exact hmark.error _ rfl
    · rw [out_store_bind, out_pure]
      exact hmark.next rfl
  | succ passes ih =>
    intro f
    simp only [rangePass_succ_iff]
    unfold repeatRange
    cases hr : inRange increment stop current with
    | false =>
      simp only [Bool.false_eq_true, if_false, false_and, exists_false, or_false]
      rw [out_store_bind, out_pure]
      exact hmark.next rfl
    | true =>
      -- the index goes on from the value that the body leaves
      have hrest : Leaves mark (do
          let reached := ((← get).vars.get index).toNumber
          repeatRange index increment stop limit body passes (reached + increment)) fun g =>
          ∃ h, RangePass index increment stop body passes
            ((g.vars.get index).toNumber + increment) g h ∧ E h := by
        intro g
        rw [out_get_bind]
        exact ih _ g
      simp only [if_true, true_and, out_store_bind]
      refine ((hb.andThen hrest ?_) _).trans ?_
      · intro flow hn
        cases flow <;> first | rfl | exact absurd rfl hn
      refine or_congr (hmark.next rfl) ⟨?_, ?_⟩
      · rintro (he | ⟨g, hg, h, hp, he⟩)
        · exact ⟨_, Or.inl rfl, he⟩
        · exact ⟨h, Or.inr ⟨g, hg, hp⟩, he⟩
      · rintro ⟨h, rfl | ⟨g, hg, hp⟩, he⟩
        · exact Or.inl he
        · exact Or.inr ⟨g, hg, h, hp, he⟩

theorem loopPass_succ_iff {before after : Exec Bool} {body : Exec Flow} {passes : Nat}
    {f h : Frame} :
    LoopPass before after body (passes + 1) f h ↔
      ∃ f₁, before.out f = (.ok true, f₁) ∧
        (h = f₁ ∨ ∃ f₂, body.out f₁ = (.ok .next, f₂) ∧
          ∃ f₃, after.out f₂ = (.ok true, f₃) ∧ LoopPass before after body passes f₃ h) := by
  constructor
  · intro hp
    cases hp with
    | first h₁ => exact ⟨_, h₁, Or.inl rfl⟩
    | next h₁ h₂ h₃ hp => exact ⟨_, h₁, Or.inr ⟨_, h₂, _, h₃, hp⟩⟩
  · rintro ⟨f₁, h₁, rfl | ⟨f₂, h₂, f₃, h₃, hp⟩⟩
    · exact .first h₁
    · exact .next h₁ h₂ h₃ hp

/-- A test that asks for nothing hands the mark on to what follows it if it holds. -/
theorem Leaves.guard (hmark : IsMark mark) {test : Exec Bool} {m : Exec Flow}
    (ht : AsksNothing test) (hm : Leaves mark m E) :
    Leaves mark (do if ← test then m else return .next) fun f =>
      ∃ g, test.out f = (.ok true, g) ∧ E g := by
  have hk (b : Bool) : Leaves mark (if b then m else pure .next) fun f => b = true ∧ E f := by
    cases b with
    | true => exact hm.congr fun f => by simp
    | false => exact leaves_pure_next.congr fun f => by simp
  refine (Leaves.after hmark ht hk).congr fun f => ⟨?_, ?_⟩
  · rintro ⟨b, g, hg, rfl, he⟩
    exact ⟨g, hg, he⟩
  · rintro ⟨g, hg, he⟩
    exact ⟨true, g, hg, rfl, he⟩

theorem leaves_repeatLoop (hmark : IsMark mark) {limit : Nat} {before after : Exec Bool}
    {body : Exec Flow} (hbefore : AsksNothing before) (hafter : AsksNothing after)
    (hb : Leaves mark body E) (passes : Nat) :
    Leaves mark (repeatLoop limit before after body passes) fun f =>
      ∃ g, LoopPass before after body passes f g ∧ E g := by
  induction passes with
  | zero =>
    intro f
    have hnone : ¬ ∃ g, LoopPass before after body 0 f g ∧ E g := by
      rintro ⟨g, hp, -⟩
      cases hp
    rw [or_iff_left hnone]
    exact hmark.error _ rfl
  | succ passes ih =>
    simp only [loopPass_succ_iff]
    unfold repeatLoop
    refine Leaves.congr (Leaves.guard hmark hbefore
      (hb.andThen (Leaves.guard hmark hafter ih) ?_)) fun f => ⟨?_, ?_⟩
    · intro flow hn
      cases flow <;> first | rfl | exact absurd rfl hn
    · rintro ⟨f₁, h₁, he | ⟨f₂, h₂, f₃, h₃, g, hp, he⟩⟩
      · exact ⟨f₁, ⟨f₁, h₁, Or.inl rfl⟩, he⟩
      · exact ⟨g, ⟨f₁, h₁, Or.inr ⟨f₂, h₂, f₃, h₃, hp⟩⟩, he⟩
    · rintro ⟨g, ⟨f₁, h₁, rfl | ⟨f₂, h₂, f₃, h₃, hp⟩⟩, he⟩
      · exact ⟨_, h₁, Or.inl he⟩
      · exact ⟨f₁, h₁, Or.inr ⟨f₂, h₂, f₃, h₃, g, hp, he⟩⟩

end Leaves

/-! ### Fragments -/

/-- The run of a fragment comes to a statement that hits, and that has no statements inside it. -/
def Meets (step : Step) (n : Nat) (Hit : StepStatement → Frame → Prop) (fragment : Fragment)
    (f : Frame) : Prop :=
  ∃ s g, Reaches step n fragment f s g ∧ s.isSimple = true ∧ Hit s g

section Meets

variable {Hit : StepStatement → Frame → Prop} {f : Frame} {c : Expression} {s : StepStatement}
  {o : Alternative} {body rest : List StepStatement}

theorem meets_simple (h : s.isSimple = true) : Meets step n Hit (.one s) f ↔ Hit s f := by
  constructor
  · rintro ⟨t, g, hr, -, hit⟩
    cases hr with
    | here => exact hit
    | consequence | others | range | whileLoop | untilLoop | block => cases h
  · intro hit
    exact ⟨s, f, .here, h, hit⟩

theorem meets_branch : Meets step n Hit (.one (.branch c s o)) f ↔
    ∃ v g, (eval step n c).out f = (.ok v, g) ∧
      (v.isTrue = true ∧ Meets step n Hit (.one s) g ∨
        v.isTrue = false ∧ Meets step n Hit (.others o) g) := by
  constructor
  · rintro ⟨t, h, hr, hs, hit⟩
    cases hr with
    | here => cases hs
    | consequence he ht hr => exact ⟨_, _, he, Or.inl ⟨ht, t, h, hr, hs, hit⟩⟩
    | others he ht hr => exact ⟨_, _, he, Or.inr ⟨ht, t, h, hr, hs, hit⟩⟩
  · rintro ⟨v, g, he, ⟨ht, t, h, hr, hs, hit⟩ | ⟨ht, t, h, hr, hs, hit⟩⟩
    · exact ⟨t, h, .consequence he ht hr, hs, hit⟩
    · exact ⟨t, h, .others he ht hr, hs, hit⟩

theorem meets_iterate {index : String} {first last : Expression} {increment : Option Expression} :
    Meets step n Hit (.one (.iterate index first last increment body)) f ↔
      ∃ x g, (bounds step n index first last increment).out f = (.ok x, g) ∧
        ∃ h, RangePass index x.2.2 x.2.1 (runAll step n body) step.setting.loopLimit x.1 g h ∧
          Meets step n Hit (.all body) h := by
  constructor
  · rintro ⟨t, k, hr, hs, hit⟩
    cases hr with
    | here => cases hs
    | range he hp hr => exact ⟨_, _, he, _, hp, t, k, hr, hs, hit⟩
  · rintro ⟨⟨x, y, z⟩, g, he, h, hp, t, k, hr, hs, hit⟩
    exact ⟨t, k, .range he hp hr, hs, hit⟩

theorem meets_while : Meets step n Hit (.one (.loop (.whileTrue c) body)) f ↔
    ∃ g, LoopPass (holds step n c true) (pure true) (runAll step n body)
      step.setting.loopLimit f g ∧ Meets step n Hit (.all body) g := by
  constructor
  · rintro ⟨t, h, hr, hs, hit⟩
    cases hr with
    | here => cases hs
    | whileLoop hp hr => exact ⟨_, hp, t, h, hr, hs, hit⟩
  · rintro ⟨g, hp, t, h, hr, hs, hit⟩
    exact ⟨t, h, .whileLoop hp hr, hs, hit⟩

theorem meets_until : Meets step n Hit (.one (.loop (.untilTrue c) body)) f ↔
    ∃ g, LoopPass (pure true) (holds step n c false) (runAll step n body)
      step.setting.loopLimit f g ∧ Meets step n Hit (.all body) g := by
  constructor
  · rintro ⟨t, h, hr, hs, hit⟩
    cases hr with
    | here => cases hs
    | untilLoop hp hr => exact ⟨_, hp, t, h, hr, hs, hit⟩
  · rintro ⟨g, hp, t, h, hr, hs, hit⟩
    exact ⟨t, h, .untilLoop hp hr, hs, hit⟩

theorem meets_block : Meets step n Hit (.one (.block body)) f ↔ Meets step n Hit (.all body) f := by
  constructor
  · rintro ⟨t, g, hr, hs, hit⟩
    cases hr with
    | here => cases hs
    | block hr => exact ⟨t, g, hr, hs, hit⟩
  · rintro ⟨t, g, hr, hs, hit⟩
    exact ⟨t, g, .block hr, hs, hit⟩

theorem not_meets_nil : ¬ Meets step n Hit (.all []) f := by
  rintro ⟨t, g, hr, -⟩
  cases hr

theorem meets_cons : Meets step n Hit (.all (s :: rest)) f ↔
    Meets step n Hit (.one s) f ∨
      ∃ g, (runOne step n s).out f = (.ok .next, g) ∧ Meets step n Hit (.all rest) g := by
  constructor
  · rintro ⟨t, h, hr, hs, hit⟩
    cases hr with
    | head hr => exact Or.inl ⟨t, h, hr, hs, hit⟩
    | tail he hr => exact Or.inr ⟨_, he, t, h, hr, hs, hit⟩
  · rintro (⟨t, h, hr, hs, hit⟩ | ⟨g, he, t, h, hr, hs, hit⟩)
    · exact ⟨t, h, .head hr, hs, hit⟩
    · exact ⟨t, h, .tail he hr, hs, hit⟩

theorem not_meets_none : ¬ Meets step n Hit (.others .none) f := by
  rintro ⟨t, g, hr, -⟩
  cases hr

theorem meets_otherwise :
    Meets step n Hit (.others (.otherwise s)) f ↔ Meets step n Hit (.one s) f := by
  constructor
  · rintro ⟨t, g, hr, hs, hit⟩
    cases hr with
    | otherwise hr => exact ⟨t, g, hr, hs, hit⟩
  · rintro ⟨t, g, hr, hs, hit⟩
    exact ⟨t, g, .otherwise hr, hs, hit⟩

theorem meets_elseIf : Meets step n Hit (.others (.elseIf c s o)) f ↔
    ∃ v g, (eval step n c).out f = (.ok v, g) ∧
      (v.isTrue = true ∧ Meets step n Hit (.one s) g ∨
        v.isTrue = false ∧ Meets step n Hit (.others o) g) := by
  constructor
  · rintro ⟨t, h, hr, hs, hit⟩
    cases hr with
    | elseIf he ht hr => exact ⟨_, _, he, Or.inl ⟨ht, t, h, hr, hs, hit⟩⟩
    | further he ht hr => exact ⟨_, _, he, Or.inr ⟨ht, t, h, hr, hs, hit⟩⟩
  · rintro ⟨v, g, he, ⟨ht, t, h, hr, hs, hit⟩ | ⟨ht, t, h, hr, hs, hit⟩⟩
    · exact ⟨t, h, .elseIf he ht hr, hs, hit⟩
    · exact ⟨t, h, .further he ht hr, hs, hit⟩

end Meets

/-- A choice between two computations hands the mark on to the one that is run. -/
theorem Leaves.choose {mark : Except Error Flow → Frame → Prop} (hmark : IsMark mark)
    {c : Expression} {m m' : Exec Flow} {E E' : Frame → Prop} (hm : Leaves mark m E)
    (hm' : Leaves mark m' E') :
    Leaves mark (do if (← eval step n c).isTrue then m else m') fun f =>
      ∃ v g, (eval step n c).out f = (.ok v, g) ∧
        (v.isTrue = true ∧ E g ∨ v.isTrue = false ∧ E' g) := by
  refine Leaves.after hmark (asksNothing_eval c) fun v => ?_
  cases v.isTrue with
  | true => exact hm.congr fun g => by simp
  | false => exact hm'.congr fun g => by simp

/-- A run bears a mark at its end if it bore it before, or if it comes to a statement that leaves
it. -/
theorem Fragment.leaves_run {mark : Except Error Flow → Frame → Prop} (hmark : IsMark mark)
    {Hit : StepStatement → Frame → Prop}
    (hs : ∀ s : StepStatement, s.isSimple = true → Leaves mark (runOne step n s) (Hit s))
    (fragment : Fragment) : Leaves mark (fragment.run step n) (Meets step n Hit fragment) := by
  induction fragment using induct with
  | simple s h => exact (hs s h).congr fun f => (meets_simple h).symm
  | branch c s o ihs iho =>
    simp only [run] at ihs iho ⊢
    unfold runOne
    exact (Leaves.choose hmark ihs iho).congr fun f => meets_branch.symm
  | iterate index first last increment body ih =>
    simp only [run, runOne_iterate] at ih ⊢
    refine (Leaves.after hmark (asksNothing_bounds index first last increment) fun x => ?_).congr
      fun f => meets_iterate.symm
    exact leaves_repeatRange hmark ih _ _
  | loop test body ih =>
    simp only [run] at ih ⊢
    cases test with
    | whileTrue c =>
      unfold runOne
      refine Leaves.congr ?_ fun f => meets_while.symm
      exact leaves_repeatLoop hmark (asksNothing_holds c true) (fun _ => keeps_pure true) ih _
    | untilTrue c =>
      unfold runOne
      refine Leaves.congr ?_ fun f => meets_until.symm
      exact leaves_repeatLoop hmark (fun _ => keeps_pure true) (asksNothing_holds c false) ih _
  | block body ih =>
    simp only [run] at ih ⊢
    unfold runOne
    exact ih.congr fun f => meets_block.symm
  | nil =>
    simp only [run]
    unfold runAll
    exact leaves_pure_next.congr fun f => iff_of_false id not_meets_nil
  | cons s rest ihs ihr =>
    simp only [run] at ihs ihr ⊢
    unfold runAll
    refine Leaves.congr (ihs.andThen ihr ?_) fun f => meets_cons.symm
    intro flow hn
    cases flow <;> first | rfl | exact absurd rfl hn
  | none =>
    simp only [run]
    unfold runOthers
    exact leaves_pure_next.congr fun f => iff_of_false id not_meets_none
  | otherwise s ih =>
    simp only [run] at ih ⊢
    unfold runOthers
    exact ih.congr fun f => meets_otherwise.symm
  | elseIf c s o ihs iho =>
    simp only [run] at ihs iho ⊢
    unfold runOthers
    exact (Leaves.choose hmark ihs iho).congr fun f => meets_elseIf.symm

end StepLang.DataStep
