import StepLang.Proofs.DataStep.FixedTable
import StepLang.Proofs.DataStep.Passes

/-! # The limit on the passes of a loop

A loop that has completed as many passes as it may make fails if its test asks for another one. A
loop over a range and one that is tested behind each pass end without an error if the test ends them
there. One that is tested before each pass fails without its test, so it ends only after fewer
passes.
-/

namespace StepLang

def StepStatement.isLoop : StepStatement → Bool
  | .iterate .. | .loop .. => true
  | _ => false

/-- The statement is a loop that is tested before each pass. -/
def StepStatement.isWhile : StepStatement → Bool
  | .loop (.whileTrue _) _ => true
  | _ => false

namespace DataStep

open Exec

/-- A loop fails by itself: an expression of it or its body fails, in the passes that it may
make. -/
inductive LoopError (step : Step) (n : Nat) (f : Frame) : StepStatement → Error → Prop where
  | bounds {index first last increment body g e} :
      (Exec.bounds step n index first last increment).out f = (.error e, g) →
      LoopError step n f (.iterate index first last increment body) e
  | range {index first last increment body a b c g e} :
      (Exec.bounds step n index first last increment).out f = (.ok (a, b, c), g) →
      RangeFault index c b (runAll step n body) step.setting.loopLimit a g e →
      LoopError step n f (.iterate index first last increment body) e
  | whileLoop {c body e} :
      LoopFault (holds step n c true) (pure true) (runAll step n body) step.setting.loopLimit f e →
      LoopError step n f (.loop (.whileTrue c) body) e
  | untilLoop {c body e} :
      LoopFault (pure true) (holds step n c false) (runAll step n body) step.setting.loopLimit f e →
      LoopError step n f (.loop (.untilTrue c) body) e

/-- The body of a loop completes so many passes, and the test behind them asks for another one or
ends the loop. Before the first pass of a loop that is tested behind each, another one is always
asked for. -/
inductive Verdict (step : Step) (n : Nat) (f : Frame) : StepStatement → Nat → Bool → Prop where
  | range {index first last increment body a b c g starts x h more} :
      (bounds step n index first last increment).out f = (.ok (a, b, c), g) →
      RangePasses index c b (runAll step n body) starts a g x h → inRange c b x = more →
      Verdict step n f (.iterate index first last increment body) starts.length more
  | whileLoop {c body passes g more h} :
      LoopPasses (holds step n c true) (pure true) (runAll step n body) passes f g →
      (holds step n c true).out g = (.ok more, h) →
      Verdict step n f (.loop (.whileTrue c) body) passes more
  | untilFirst {c body} : Verdict step n f (.loop (.untilTrue c) body) 0 true
  | untilLoop {c body passes g h more k} :
      LoopPasses (pure true) (holds step n c false) (runAll step n body) passes f g →
      (runAll step n body).out g = (.ok .next, h) → (holds step n c false).out h = (.ok more, k) →
      Verdict step n f (.loop (.untilTrue c) body) (passes + 1) more

/-- A loop outlasts its passes: it completes all that it may make, and its test asks for another one
or, if it stands before each pass, is not made any more. -/
inductive Outlasts (step : Step) (n : Nat) (f : Frame) : StepStatement → Prop where
  | asked {s} : s.isWhile = false → Verdict step n f s step.setting.loopLimit true →
      Outlasts step n f s
  | untested {c body g} :
      LoopPasses (holds step n c true) (pure true) (runAll step n body) step.setting.loopLimit f g →
      Outlasts step n f (.loop (.whileTrue c) body)

variable {step : Step} {n : Nat} {f g : Frame} {index : String} {first last : Expression}
  {increment : Option Expression} {c : Expression} {body : List StepStatement} {a b x : Float}
  {e : Error} {passes : Nat}

/-! ### Loops over a range -/

theorem verdict_iterate_iff (hb : (bounds step n index first last increment).out f =
      (.ok (a, b, x), g)) :
    Verdict step n f (.iterate index first last increment body) passes true ↔
      OutlastsRange index x b (runAll step n body) passes a g := by
  constructor
  · intro h
    cases h with
    | range hb' hp hx =>
      cases hb.symm.trans hb'
      exact ⟨_, _, _, rfl, hp, hx⟩
  · rintro ⟨starts, y, h, rfl, hp, hy⟩
    exact .range hb hp hy

theorem iterate_eq_error_iff :
    ((runOne step n (.iterate index first last increment body)).out f).1 = .error e ↔
      LoopError step n f (.iterate index first last increment body) e ∨
      e = .tooManyIterations step.setting.loopLimit ∧
        Outlasts step n f (.iterate index first last increment body) := by
  rw [runOne_iterate, out_bind]
  rcases hb : (bounds step n index first last increment).out f with ⟨e' | ⟨a, b, x⟩, g⟩
  · have htest (k : Nat) (more : Bool) :
      ¬ Verdict step n f (.iterate index first last increment body) k more := by
      rintro ⟨hb'⟩
      cases hb.symm.trans hb'
    constructor
    · intro he
      cases he
      exact .inl (.bounds hb)
    · rintro (h | ⟨-, h⟩)
      · cases h with
        | bounds hb' => cases hb.symm.trans hb'; rfl
        | range hb' => cases hb.symm.trans hb'
      · cases h with
        | asked _ h => exact absurd h (htest _ _)
  · dsimp only
    have hfault : LoopError step n f (.iterate index first last increment body) e ↔
        RangeFault index x b (runAll step n body) step.setting.loopLimit a g e := by
      constructor
      · intro h
        cases h with
        | bounds hb' => cases hb.symm.trans hb'
        | range hb' h =>
          cases hb.symm.trans hb'
          exact h
      · exact .range hb
    have houtlasts : Outlasts step n f (.iterate index first last increment body) ↔
        OutlastsRange index x b (runAll step n body) step.setting.loopLimit a g := by
      rw [← verdict_iterate_iff hb]
      constructor
      · rintro (⟨-, h⟩ | -)
        exact h
      · exact .asked rfl
    rw [repeatRange_eq_error_iff, hfault, houtlasts]

theorem iterate_eq_next_iff
    (h : Verdict step n f (.iterate index first last increment body) passes false) :
    ((runOne step n (.iterate index first last increment body)).out f).1 = .ok .next ↔
      passes ≤ step.setting.loopLimit := by
  cases h with
  | range hb hp hx =>
    rw [runOne_iterate, out_bind, hb]
    dsimp only
    constructor
    · intro hnext
      refine Nat.le_of_not_lt fun hlt => ?_
      rw [hp.out_repeatRange_fails hlt] at hnext
      cases hnext
    · intro hle
      rw [hp.out_repeatRange_ends hx hle]

/-! ### Loops with a test -/

theorem verdict_until_iff :
    Verdict step n f (.loop (.untilTrue c) body) passes true ↔
      ∃ g, LoopPasses (pure true) (holds step n c false) (runAll step n body) passes f g := by
  constructor
  · intro h
    cases h with
    | untilFirst => exact ⟨f, .zero⟩
    | untilLoop hp hb ha => exact ⟨_, hp.append (.succ rfl hb ha .zero)⟩
  · rintro ⟨g, hp⟩
    cases passes with
    | zero => exact .untilFirst
    | succ passes =>
      obtain ⟨h, hp, hlast⟩ := hp.split
      cases hlast with
      | succ hbefore hb ha hrest =>
        cases hbefore
        exact .untilLoop hp hb ha

theorem while_eq_error_iff :
    ((runOne step n (.loop (.whileTrue c) body)).out f).1 = .error e ↔
      LoopError step n f (.loop (.whileTrue c) body) e ∨
      e = .tooManyIterations step.setting.loopLimit ∧
        Outlasts step n f (.loop (.whileTrue c) body) := by
  have hfault : LoopError step n f (.loop (.whileTrue c) body) e ↔
      LoopFault (holds step n c true) (pure true) (runAll step n body) step.setting.loopLimit f
        e := by
    constructor
    · rintro ⟨⟩
      assumption
    · exact .whileLoop
  have houtlasts : Outlasts step n f (.loop (.whileTrue c) body) ↔
      ∃ g, LoopPasses (holds step n c true) (pure true) (runAll step n body)
        step.setting.loopLimit f g := by
    constructor
    · rintro (⟨hw, -⟩ | hp)
      · cases hw
      · exact ⟨_, hp⟩
    · exact fun ⟨g, hp⟩ => .untested hp
  unfold runOne
  rw [repeatLoop_eq_error_iff, hfault, houtlasts]

theorem until_eq_error_iff :
    ((runOne step n (.loop (.untilTrue c) body)).out f).1 = .error e ↔
      LoopError step n f (.loop (.untilTrue c) body) e ∨
      e = .tooManyIterations step.setting.loopLimit ∧
        Outlasts step n f (.loop (.untilTrue c) body) := by
  have hfault : LoopError step n f (.loop (.untilTrue c) body) e ↔
      LoopFault (pure true) (holds step n c false) (runAll step n body) step.setting.loopLimit f
        e := by
    constructor
    · rintro ⟨⟩
      assumption
    · exact .untilLoop
  have houtlasts : Outlasts step n f (.loop (.untilTrue c) body) ↔
      ∃ g, LoopPasses (pure true) (holds step n c false) (runAll step n body)
        step.setting.loopLimit f g := by
    rw [← verdict_until_iff]
    constructor
    · rintro ⟨-, h⟩
      exact h
    · exact .asked rfl
  unfold runOne
  rw [repeatLoop_eq_error_iff, hfault, houtlasts]

/-- A loop that is tested before each pass has no test behind its last one. -/
theorem while_eq_next_iff (h : Verdict step n f (.loop (.whileTrue c) body) passes false) :
    ((runOne step n (.loop (.whileTrue c) body)).out f).1 = .ok .next ↔
      passes < step.setting.loopLimit := by
  unfold runOne
  cases h with
  | whileLoop hp hlast =>
    constructor
    · intro hnext
      refine Nat.lt_of_not_le fun hle => ?_
      rw [hp.out_repeatLoop_fails hle] at hnext
      cases hnext
    · intro hlt
      rw [hp.out_repeatLoop_ends_before hlast hlt]

theorem until_eq_next_iff (h : Verdict step n f (.loop (.untilTrue c) body) passes false) :
    ((runOne step n (.loop (.untilTrue c) body)).out f).1 = .ok .next ↔
      passes ≤ step.setting.loopLimit := by
  unfold runOne
  cases h with
  | @untilLoop _ _ passes _ _ _ _ hp hb hlast =>
    rw [Nat.add_one_le_iff]
    constructor
    · intro hnext
      refine Nat.lt_of_not_le fun hle => ?_
      rw [hp.out_repeatLoop_fails hle] at hnext
      cases hnext
    · intro hlt
      rw [hp.out_repeatLoop_ends_after rfl hb hlast hlt]

/-! ### Every loop -/

/-- A loop fails with an error of its own, or because it outlasts the passes that it may make. If
its test ends it, it goes on behind it as long as the passes are not too many; a loop that is tested
before each pass needs one to spare. -/
theorem loop_fails_or_ends {s : StepStatement} (hs : s.isLoop = true) :
    (∀ e, ((runOne step n s).out f).1 = .error e ↔
      LoopError step n f s e ∨
        e = .tooManyIterations step.setting.loopLimit ∧ Outlasts step n f s) ∧
    ∀ passes, Verdict step n f s passes false →
      (((runOne step n s).out f).1 = .ok .next ↔
        passes < step.setting.loopLimit ∨
          passes = step.setting.loopLimit ∧ s.isWhile = false) := by
  cases s with
  | iterate index first last increment body =>
    refine ⟨fun e => iterate_eq_error_iff, fun passes h => ?_⟩
    rw [iterate_eq_next_iff h, Nat.le_iff_lt_or_eq]
    simp [StepStatement.isWhile]
  | loop test body =>
    cases test with
    | whileTrue c =>
      refine ⟨fun e => while_eq_error_iff, fun passes h => ?_⟩
      rw [while_eq_next_iff h]
      simp [StepStatement.isWhile]
    | untilTrue c =>
      refine ⟨fun e => until_eq_error_iff, fun passes h => ?_⟩
      rw [until_eq_next_iff h, Nat.le_iff_lt_or_eq]
      simp [StepStatement.isWhile]
  | _ => cases hs

/-! ### Loops of three passes -/

def threePasses : Step where
  setting := { Setting.reading visits ["out"] with loopLimit := 3 }
  arrays := {}
  columns := ["i"]
  explicitOutput := false

def atOne : Frame := ⟨Variables.empty.set "i" (.number 1.0), [false], #[]⟩

def addOne : StepStatement := .assign (.ref "i") (.binary .add (.ref "i") (.number 1.0))

def countUntilPastThree : StepStatement :=
  .loop (.untilTrue (.binary .gt (.ref "i") (.number 3.0))) [addOne]

def countWhileToThree : StepStatement :=
  .loop (.whileTrue (.binary .ltEq (.ref "i") (.number 3.0))) [addOne]

/-- Tested behind its third pass, the loop ends. -/
theorem loop_fails_or_ends_pastThree : countUntilPastThree.isLoop = true ∧
    Verdict threePasses 1 atOne countUntilPastThree 3 false ∧
    ((runOne threePasses 1 countUntilPastThree).out atOne).1 = .ok .next := by
  let above : Expression := .binary .gt (.ref "i") (.number 3.0)
  have hframe : ((passFrame? (pure true) (holds threePasses 1 above false)
      (runAll threePasses 1 [addOne]) 2 atOne).bind fun g =>
        ((runAll threePasses 1 [addOne]).frameWith? .next g).bind
          ((holds threePasses 1 above false).frameWith? false)).isSome = true := by
    decide +kernel
  obtain ⟨k, hk⟩ := Option.isSome_iff_exists.mp hframe
  obtain ⟨g, hg, hk⟩ := Option.bind_eq_some_iff.mp hk
  obtain ⟨h, hh, hk⟩ := Option.bind_eq_some_iff.mp hk
  have htest : Verdict threePasses 1 atOne countUntilPastThree 3 false :=
    .untilLoop (passFrame?_eq_some_iff.mp hg) (frameWith?_eq_some_iff.mp hh)
      (frameWith?_eq_some_iff.mp hk)
  exact ⟨rfl, htest, ((loop_fails_or_ends rfl).2 3 htest).mpr (.inr ⟨rfl, rfl⟩)⟩

/-- Tested before each pass, the loop is not asked for a pass behind its third one, but it fails.
Counted over a range, three passes are not too many. -/
theorem while_fails_behind_last_pass :
    (∀ e, ¬ LoopError threePasses 1 atOne countWhileToThree e) ∧
      Verdict threePasses 1 atOne countWhileToThree 3 false ∧
      ¬ Verdict threePasses 1 atOne countWhileToThree 3 true ∧
      ((runOne threePasses 1 countWhileToThree).out atOne).1 = .error (.tooManyIterations 3) ∧
      ((runOne threePasses 1 (.iterate "i" (.number 1.0) (.number 3.0) none [])).out atOne).1 =
        .ok .next := by
  let within : Expression := .binary .ltEq (.ref "i") (.number 3.0)
  have hframe : ((passFrame? (holds threePasses 1 within true) (pure true)
      (runAll threePasses 1 [addOne]) 3 atOne).bind
        ((holds threePasses 1 within true).frameWith? false)).isSome = true := by
    decide +kernel
  obtain ⟨h, hh⟩ := Option.isSome_iff_exists.mp hframe
  obtain ⟨g, hg, hh⟩ := Option.bind_eq_some_iff.mp hh
  have hp := passFrame?_eq_some_iff.mp hg
  have hlast := frameWith?_eq_some_iff.mp hh
  refine ⟨?_, .whileLoop hp hlast, ?_, ?_, ?_⟩
  · rintro e ⟨⟩
    exact hp.not_loopFault ‹_›
  · rintro (_ | ⟨hp', htrue⟩)
    obtain rfl := Option.some.inj (hg.symm.trans (passFrame?_eq_some_iff.mpr hp'))
    cases hlast.symm.trans htrue
  · unfold countWhileToThree runOne
    exact hp.out_repeatLoop_fails (Nat.le_refl 3)
  · have hcounted : ((runOne threePasses 1 (.iterate "i" (.number 1.0) (.number 3.0) none
        [])).frameWith? .next atOne).isSome = true := by
      decide +kernel
    obtain ⟨k, hk⟩ := Option.isSome_iff_exists.mp hcounted
    rw [frameWith?_eq_some_iff.mp hk]

end DataStep

end StepLang
