import StepLang.Proofs.DataStep.Simulation

/-! # The passes of a loop

A loop makes passes as long as its body goes on and its test asks for another one. After some passes
it is the same loop with fewer passes left, so how it ends depends on the passes that it can make:
it fails with an error of its test or its body, or it runs out of passes.
-/

namespace StepLang.DataStep

open Exec

/-- The frame that a computation leaves if its result is the given one. -/
def Exec.frameWith? {α : Type} [DecidableEq α] (m : Exec α) (a : α) (f : Frame) : Option Frame :=
  match m.out f with
  | (.ok b, g) => if b = a then some g else none
  | (.error _, _) => none

theorem Exec.frameWith?_eq_some_iff {α : Type} [DecidableEq α] {m : Exec α} {a : α}
    {f g : Frame} : m.frameWith? a f = some g ↔ m.out f = (.ok a, g) := by
  unfold frameWith?
  rcases m.out f with ⟨_ | b, h⟩
  · simp
  · simp

/-! ### Loops over a range -/

/-- From a number and a frame, a loop over a range makes passes that start in the frames of the
list. All of them go on; the last number and frame are those from which the next pass would
start. -/
inductive RangePasses (index : String) (increment stop : Float) (body : Exec Flow) :
    List Frame → Float → Frame → Float → Frame → Prop where
  | nil {current f} : RangePasses index increment stop body [] current f current f
  | cons {starts current f g last h} : inRange increment stop current = true →
      body.out { f with vars := f.vars.set index (.number current) } = (.ok .next, g) →
      RangePasses index increment stop body starts ((g.vars.get index).toNumber + increment) g
        last h →
      RangePasses index increment stop body
        ({ f with vars := f.vars.set index (.number current) } :: starts) current f last h

/-- The body of a loop over a range fails in a pass, at most so many passes on. -/
inductive RangeFault (index : String) (increment stop : Float) (body : Exec Flow) :
    Nat → Float → Frame → Error → Prop where
  | body {passes current f g e} : inRange increment stop current = true →
      body.out { f with vars := f.vars.set index (.number current) } = (.error e, g) →
      RangeFault index increment stop body (passes + 1) current f e
  | next {passes current f g e} : inRange increment stop current = true →
      body.out { f with vars := f.vars.set index (.number current) } = (.ok .next, g) →
      RangeFault index increment stop body passes ((g.vars.get index).toNumber + increment) g e →
      RangeFault index increment stop body (passes + 1) current f e

section Range

variable {index : String} {increment stop : Float} {limit : Nat} {body : Exec Flow}
  {passes : Nat} {current last : Float} {f g : Frame} {starts : List Frame} {e : Error}

theorem out_repeatRange_end (h : inRange increment stop current = false) :
    (repeatRange index increment stop limit body passes current).out f =
      (.ok .next, { f with vars := f.vars.set index (.number current) }) := by
  have hout : ¬ inRange increment stop current = true := by simp [h]
  cases passes with
  | zero =>
    rw [repeatRange, if_neg hout, out_store_bind, out_pure]
  | succ passes =>
    rw [repeatRange, if_neg hout, out_store_bind, out_pure]

theorem out_repeatRange_zero (h : inRange increment stop current = true) :
    (repeatRange index increment stop limit body 0 current).out f =
      (.error (.tooManyIterations limit), f) := by
  rw [repeatRange, if_pos h, out_throw]

theorem out_repeatRange_next (h : inRange increment stop current = true)
    (hb : body.out { f with vars := f.vars.set index (.number current) } = (.ok .next, g)) :
    (repeatRange index increment stop limit body (passes + 1) current).out f =
      (repeatRange index increment stop limit body passes
        ((g.vars.get index).toNumber + increment)).out g := by
  rw [repeatRange, if_pos h, out_store_bind, out_bind, hb]
  dsimp only
  rw [out_get_bind]

/-- A pass in which the body does not go on ends the loop in the same way. -/
theorem out_repeatRange_stop {r : Except Error Flow} (h : inRange increment stop current = true)
    (hb : body.out { f with vars := f.vars.set index (.number current) } = (r, g))
    (hr : r ≠ .ok .next) :
    (repeatRange index increment stop limit body (passes + 1) current).out f = (r, g) := by
  rw [repeatRange, if_pos h, out_store_bind, out_bind, hb]
  rcases r with e | (_ | _ | _)
  · rfl
  · exact absurd rfl hr
  · rfl
  · rfl

theorem RangePasses.out_repeatRange
    (h : RangePasses index increment stop body starts current f last g) :
    (repeatRange index increment stop limit body (starts.length + passes) current).out f =
      (repeatRange index increment stop limit body passes last).out g := by
  induction h with
  | nil => rw [List.length_nil, Nat.zero_add]
  | cons hr hb _ ih =>
    rw [List.length_cons, Nat.add_right_comm, out_repeatRange_next hr hb]
    exact ih

/-- The first passes of a loop leave a number from which it makes the others. -/
theorem RangePasses.split {before after : List Frame}
    (h : RangePasses index increment stop body (before ++ after) current f last g) :
    ∃ x h, RangePasses index increment stop body before current f x h ∧
      RangePasses index increment stop body after x h last g := by
  induction before generalizing current f with
  | nil => exact ⟨current, f, .nil, h⟩
  | cons start before ih =>
    cases h with
    | cons hr hb h =>
      obtain ⟨x, k, hbefore, hafter⟩ := ih h
      exact ⟨x, k, .cons hr hb hbefore, hafter⟩

/-- A loop that comes out of its range after passes that it may make ends there. -/
theorem RangePasses.out_repeatRange_ends
    (h : RangePasses index increment stop body starts current f last g)
    (hlast : inRange increment stop last = false) (hle : starts.length ≤ passes) :
    (repeatRange index increment stop limit body passes current).out f =
      (.ok .next, { g with vars := g.vars.set index (.number last) }) := by
  obtain ⟨rest, rfl⟩ := Nat.exists_eq_add_of_le hle
  rw [h.out_repeatRange, out_repeatRange_end hlast]

/-- A loop that is still in its range behind all passes that it may make fails there. -/
theorem RangePasses.out_repeatRange_outlasts
    (h : RangePasses index increment stop body starts current f last g)
    (hlast : inRange increment stop last = true) :
    (repeatRange index increment stop limit body starts.length current).out f =
      (.error (.tooManyIterations limit), g) := by
  rw [← Nat.add_zero starts.length, h.out_repeatRange, out_repeatRange_zero hlast]

/-- A loop with more passes than it may make fails before the first one of those. -/
theorem RangePasses.out_repeatRange_fails
    (h : RangePasses index increment stop body starts current f last g)
    (hlt : passes < starts.length) :
    ((repeatRange index increment stop limit body passes current).out f).1 =
      .error (.tooManyIterations limit) := by
  rw [← List.take_append_drop passes starts] at h
  obtain ⟨x, h, hbefore, hafter⟩ := h.split
  have hlength : (starts.take passes).length = passes := by
    rw [List.length_take, Nat.min_eq_left (Nat.le_of_lt hlt)]
  generalize hrest : starts.drop passes = rest at hafter
  cases hafter with
  | nil => exact absurd (List.drop_eq_nil_iff.mp hrest) (Nat.not_le_of_lt hlt)
  | cons hx _ _ => rw [← hlength, hbefore.out_repeatRange_outlasts hx]

theorem rangeFault_next_iff (h : inRange increment stop current = true)
    (hb : body.out { f with vars := f.vars.set index (.number current) } = (.ok .next, g)) :
    RangeFault index increment stop body (passes + 1) current f e ↔
      RangeFault index increment stop body passes ((g.vars.get index).toNumber + increment) g
        e := by
  constructor
  · intro hf
    cases hf with
    | body _ hb' => cases hb.symm.trans hb'
    | next _ hb' hf =>
      cases hb.symm.trans hb'
      exact hf
  · exact .next h hb

theorem rangeFault_stop_iff {r : Except Error Flow} (h : inRange increment stop current = true)
    (hb : body.out { f with vars := f.vars.set index (.number current) } = (r, g))
    (hr : r ≠ .ok .next) :
    RangeFault index increment stop body (passes + 1) current f e ↔ r = .error e := by
  constructor
  · intro hf
    cases hf with
    | body _ hb' => exact congrArg Prod.fst (hb.symm.trans hb')
    | next _ hb' => cases hr (congrArg Prod.fst (hb.symm.trans hb'))
  · rintro rfl
    exact .body h hb

theorem not_rangeFault_end (h : inRange increment stop current = false) :
    ¬ RangeFault index increment stop body passes current f e := by
  intro hf
  cases hf with
  | body hr => simp [h] at hr
  | next hr => simp [h] at hr

theorem not_rangeFault_zero : ¬ RangeFault index increment stop body 0 current f e := by
  intro hf
  cases hf

/-- A loop over a range can make so many passes and is still in its range behind them. -/
def OutlastsRange (index : String) (increment stop : Float) (body : Exec Flow) (passes : Nat)
    (current : Float) (f : Frame) : Prop :=
  ∃ starts x g, starts.length = passes ∧
    RangePasses index increment stop body starts current f x g ∧ inRange increment stop x = true

theorem outlastsRange_zero_iff :
    OutlastsRange index increment stop body 0 current f ↔
      inRange increment stop current = true := by
  constructor
  · rintro ⟨starts, x, g, hlength, hp, hx⟩
    obtain rfl := List.length_eq_zero_iff.mp hlength
    cases hp
    exact hx
  · exact fun h => ⟨[], current, f, rfl, .nil, h⟩

theorem outlastsRange_succ_iff :
    OutlastsRange index increment stop body (passes + 1) current f ↔
      inRange increment stop current = true ∧
        ∃ g, body.out { f with vars := f.vars.set index (.number current) } = (.ok .next, g) ∧
          OutlastsRange index increment stop body passes ((g.vars.get index).toNumber + increment)
            g := by
  constructor
  · rintro ⟨starts, x, h, hlength, hp, hx⟩
    cases hp with
    | nil => cases hlength
    | cons hr hb hp => exact ⟨hr, _, hb, _, x, h, Nat.succ.inj hlength, hp, hx⟩
  · rintro ⟨hr, g, hb, starts, x, h, rfl, hp, hx⟩
    exact ⟨_, x, h, rfl, .cons hr hb hp, hx⟩

/-- A loop over a range fails if its body does, or if it outlasts the passes that it may make. -/
theorem repeatRange_eq_error_iff :
    ((repeatRange index increment stop limit body passes current).out f).1 = .error e ↔
      RangeFault index increment stop body passes current f e ∨
      e = .tooManyIterations limit ∧ OutlastsRange index increment stop body passes current f := by
  induction passes generalizing current f with
  | zero =>
    rw [or_iff_right not_rangeFault_zero, outlastsRange_zero_iff]
    cases hr : inRange increment stop current with
    | false => simp [out_repeatRange_end hr]
    | true => simp [out_repeatRange_zero hr, eq_comm]
  | succ passes ih =>
    rw [outlastsRange_succ_iff]
    cases hr : inRange increment stop current with
    | false => simp [out_repeatRange_end hr, not_rangeFault_end hr]
    | true =>
      obtain ⟨r, g, hb⟩ : ∃ r g,
          body.out { f with vars := f.vars.set index (.number current) } = (r, g) := ⟨_, _, rfl⟩
      by_cases hnext : r = .ok .next
      · subst hnext
        rw [out_repeatRange_next hr hb, ih, rangeFault_next_iff hr hb]
        simp [hb]
      · rw [out_repeatRange_stop hr hb hnext, rangeFault_stop_iff hr hb hnext]
        simp [hb, hnext]

end Range

/-! ### Loops with a test -/

/-- From a frame, a loop with a test makes so many passes, and leaves another frame. In all of them
the body goes on and the tests hold. -/
inductive LoopPasses (before after : Exec Bool) (body : Exec Flow) :
    Nat → Frame → Frame → Prop where
  | zero {f} : LoopPasses before after body 0 f f
  | succ {passes f f₁ f₂ f₃ g} : before.out f = (.ok true, f₁) → body.out f₁ = (.ok .next, f₂) →
      after.out f₂ = (.ok true, f₃) → LoopPasses before after body passes f₃ g →
      LoopPasses before after body (passes + 1) f g

/-- A test or the body of a loop fails in a pass, at most so many passes on. -/
inductive LoopFault (before after : Exec Bool) (body : Exec Flow) :
    Nat → Frame → Error → Prop where
  | before {passes f f₁ e} : before.out f = (.error e, f₁) →
      LoopFault before after body (passes + 1) f e
  | body {passes f f₁ f₂ e} : before.out f = (.ok true, f₁) → body.out f₁ = (.error e, f₂) →
      LoopFault before after body (passes + 1) f e
  | after {passes f f₁ f₂ f₃ e} : before.out f = (.ok true, f₁) →
      body.out f₁ = (.ok .next, f₂) → after.out f₂ = (.error e, f₃) →
      LoopFault before after body (passes + 1) f e
  | next {passes f f₁ f₂ f₃ e} : before.out f = (.ok true, f₁) →
      body.out f₁ = (.ok .next, f₂) → after.out f₂ = (.ok true, f₃) →
      LoopFault before after body passes f₃ e → LoopFault before after body (passes + 1) f e

section Test

variable {limit : Nat} {before after : Exec Bool} {body : Exec Flow} {passes : Nat}
  {f g : Frame} {e : Error}

theorem LoopPasses.out_repeatLoop {k : Nat} (h : LoopPasses before after body k f g) :
    (repeatLoop limit before after body (k + passes)).out f =
      (repeatLoop limit before after body passes).out g := by
  induction h with
  | zero => rw [Nat.zero_add]
  | succ h₁ h₂ h₃ _ ih =>
    rw [Nat.add_right_comm, repeatLoop, out_bind, h₁]
    dsimp only
    rw [if_pos rfl, out_bind, h₂]
    dsimp only
    rw [out_bind, h₃]
    dsimp only
    rw [if_pos rfl, ih]

theorem LoopPasses.append {j k : Nat} {h : Frame} (hj : LoopPasses before after body j f g)
    (hk : LoopPasses before after body k g h) : LoopPasses before after body (j + k) f h := by
  induction hj with
  | zero => rwa [Nat.zero_add]
  | succ h₁ h₂ h₃ _ ih =>
    rw [Nat.add_right_comm]
    exact .succ h₁ h₂ h₃ (ih hk)

theorem LoopPasses.split {j k : Nat} (h : LoopPasses before after body (j + k) f g) :
    ∃ h, LoopPasses before after body j f h ∧ LoopPasses before after body k h g := by
  induction j generalizing f with
  | zero =>
    rw [Nat.zero_add] at h
    exact ⟨f, .zero, h⟩
  | succ j ih =>
    rw [Nat.add_right_comm] at h
    cases h with
    | succ h₁ h₂ h₃ h =>
      obtain ⟨k, hj, hk⟩ := ih h
      exact ⟨k, .succ h₁ h₂ h₃ hj, hk⟩

/-- A loop that is not entered again after passes fewer than it may make ends there. -/
theorem LoopPasses.out_repeatLoop_ends_before {k : Nat} {h : Frame}
    (hp : LoopPasses before after body k f g) (hlast : before.out g = (.ok false, h))
    (hlt : k < passes) :
    (repeatLoop limit before after body passes).out f = (.ok .next, h) := by
  obtain ⟨rest, rfl⟩ := Nat.exists_eq_add_of_lt hlt
  rw [Nat.add_assoc, hp.out_repeatLoop, repeatLoop, out_bind, hlast]
  rfl

theorem LoopPasses.out_repeatLoop_ends_after {k : Nat} {g₁ g₂ h : Frame}
    (hp : LoopPasses before after body k f g) (hbefore : before.out g = (.ok true, g₁))
    (hbody : body.out g₁ = (.ok .next, g₂)) (hlast : after.out g₂ = (.ok false, h))
    (hlt : k < passes) :
    (repeatLoop limit before after body passes).out f = (.ok .next, h) := by
  obtain ⟨rest, rfl⟩ := Nat.exists_eq_add_of_lt hlt
  rw [Nat.add_assoc, hp.out_repeatLoop, repeatLoop, out_bind, hbefore]
  dsimp only
  rw [if_pos rfl, out_bind, hbody]
  dsimp only
  rw [out_bind, hlast]
  rfl

theorem LoopPasses.out_repeatLoop_fails {k : Nat} (hp : LoopPasses before after body k f g)
    (hle : passes ≤ k) :
    ((repeatLoop limit before after body passes).out f).1 =
      .error (.tooManyIterations limit) := by
  obtain ⟨rest, rfl⟩ := Nat.exists_eq_add_of_le hle
  obtain ⟨h, hp, -⟩ := hp.split
  rw [← Nat.add_zero passes, hp.out_repeatLoop, repeatLoop, out_throw]

/-- In the passes that a loop makes no test and no body fails. -/
theorem LoopPasses.not_loopFault (hp : LoopPasses before after body passes f g) :
    ¬ LoopFault before after body passes f e := by
  intro h
  induction hp with
  | zero => cases h
  | succ h₁ h₂ h₃ _ ih =>
    cases h with
    | before h₁' => cases h₁.symm.trans h₁'
    | body h₁' h₂' =>
      cases h₁.symm.trans h₁'
      cases h₂.symm.trans h₂'
    | after h₁' h₂' h₃' =>
      cases h₁.symm.trans h₁'
      cases h₂.symm.trans h₂'
      cases h₃.symm.trans h₃'
    | next h₁' h₂' h₃' h =>
      cases h₁.symm.trans h₁'
      cases h₂.symm.trans h₂'
      cases h₃.symm.trans h₃'
      exact ih h

/-- The frame that so many passes leave, if the loop makes them. -/
def passFrame? (before after : Exec Bool) (body : Exec Flow) : Nat → Frame → Option Frame
  | 0, f => some f
  | passes + 1, f =>
    (before.frameWith? true f).bind fun f₁ =>
      (body.frameWith? .next f₁).bind fun f₂ =>
        (after.frameWith? true f₂).bind (passFrame? before after body passes)

theorem passFrame?_eq_some_iff :
    passFrame? before after body passes f = some g ↔
      LoopPasses before after body passes f g := by
  induction passes generalizing f with
  | zero =>
    constructor
    · rintro ⟨⟩
      exact .zero
    · rintro ⟨⟩
      rfl
  | succ passes ih =>
    simp only [passFrame?, Option.bind_eq_some_iff, frameWith?_eq_some_iff, ih]
    constructor
    · rintro ⟨f₁, h₁, f₂, h₂, f₃, h₃, h⟩
      exact .succ h₁ h₂ h₃ h
    · intro h
      cases h with
      | succ h₁ h₂ h₃ h => exact ⟨_, h₁, _, h₂, _, h₃, h⟩

theorem loopFault_succ_iff :
    LoopFault before after body (passes + 1) f e ↔
      (before.out f).1 = .error e ∨ ∃ f₁, before.out f = (.ok true, f₁) ∧
        ((body.out f₁).1 = .error e ∨ ∃ f₂, body.out f₁ = (.ok .next, f₂) ∧
          ((after.out f₂).1 = .error e ∨ ∃ f₃, after.out f₂ = (.ok true, f₃) ∧
            LoopFault before after body passes f₃ e)) := by
  constructor
  · intro h
    cases h with
    | before h₁ => exact .inl (congrArg Prod.fst h₁)
    | body h₁ h₂ => exact .inr ⟨_, h₁, .inl (congrArg Prod.fst h₂)⟩
    | after h₁ h₂ h₃ => exact .inr ⟨_, h₁, .inr ⟨_, h₂, .inl (congrArg Prod.fst h₃)⟩⟩
    | next h₁ h₂ h₃ h => exact .inr ⟨_, h₁, .inr ⟨_, h₂, .inr ⟨_, h₃, h⟩⟩⟩
  · rintro (h₁ | ⟨f₁, h₁, h₂ | ⟨f₂, h₂, h₃ | ⟨f₃, h₃, h⟩⟩⟩)
    · exact .before (Prod.ext h₁ rfl)
    · exact .body h₁ (Prod.ext h₂ rfl)
    · exact .after h₁ h₂ (Prod.ext h₃ rfl)
    · exact .next h₁ h₂ h₃ h

theorem exists_loopPasses_succ_iff :
    (∃ g, LoopPasses before after body (passes + 1) f g) ↔
      ∃ f₁, before.out f = (.ok true, f₁) ∧ ∃ f₂, body.out f₁ = (.ok .next, f₂) ∧
        ∃ f₃, after.out f₂ = (.ok true, f₃) ∧ ∃ g, LoopPasses before after body passes f₃ g := by
  constructor
  · rintro ⟨g, h⟩
    cases h with
    | succ h₁ h₂ h₃ h => exact ⟨_, h₁, _, h₂, _, h₃, g, h⟩
  · rintro ⟨f₁, h₁, f₂, h₂, f₃, h₃, g, h⟩
    exact ⟨g, .succ h₁ h₂ h₃ h⟩

/-- A loop with a test fails if a test or its body does, or if it has made the passes that it may
make, whatever its test would say behind them. -/
theorem repeatLoop_eq_error_iff :
    ((repeatLoop limit before after body passes).out f).1 = .error e ↔
      LoopFault before after body passes f e ∨
      e = .tooManyIterations limit ∧ ∃ g, LoopPasses before after body passes f g := by
  induction passes generalizing f with
  | zero =>
    have hfault : ¬ LoopFault before after body 0 f e := by
      intro h
      cases h
    have hpasses : ∃ g, LoopPasses before after body 0 f g := ⟨f, .zero⟩
    rw [or_iff_right hfault, and_iff_left hpasses, repeatLoop, out_throw]
    simp [eq_comm]
  | succ passes ih =>
    rw [loopFault_succ_iff, exists_loopPasses_succ_iff, repeatLoop, out_bind]
    rcases before.out f with ⟨_ | (_ | _), f₁⟩
    · simp
    · simp
    · dsimp only
      rw [if_pos rfl, out_bind]
      rcases hb : body.out f₁ with ⟨_ | (_ | _ | _), f₂⟩
      · simp [hb]
      · dsimp only
        rw [out_bind]
        rcases ha : after.out f₂ with ⟨_ | (_ | _), f₃⟩
        · simp [hb, ha]
        · simp [hb, ha]
        · simp [hb, ha, ih]
      · simp [hb]
      · simp [hb]

end Test

end StepLang.DataStep
