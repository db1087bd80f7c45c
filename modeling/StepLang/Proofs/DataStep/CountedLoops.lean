import StepLang.Proofs.DataStep.LoadOrder
import StepLang.Proofs.DataStep.Passes
import StepLang.Proofs.WholeNumbers

/-! # Loops that count

A loop over a range of integers reads its index back after each pass. As long as the index is a
numeric variable and the body leaves it alone, the loop makes as many passes as there are multiples
of the increment in the range, and leaves the first one outside of it.
-/

namespace StepLang

/-! ### The number of passes -/

/-- A loop over a range from one integer to another goes on. -/
def InIntRange (start stop increment : Int) : Prop :=
  0 < increment ∧ start ≤ stop ∨ increment < 0 ∧ stop ≤ start

instance (start stop increment : Int) : Decidable (InIntRange start stop increment) :=
  inferInstanceAs (Decidable (_ ∨ _))

def passCount (start stop increment : Int) : Nat :=
  if InIntRange start stop increment then ((stop - start).fdiv increment + 1).toNat else 0

section PassCount

variable {i j k : Int}

theorem passCount_neg (i j k : Int) : passCount (-i) (-j) (-k) = passCount i j k := by
  have hrange : InIntRange (-i) (-j) (-k) ↔ InIntRange i j k := by
    unfold InIntRange
    omega
  have hdiff : -j - -i = -(j - i) := by omega
  unfold passCount
  rw [hdiff, Int.neg_fdiv_neg]
  exact if_congr hrange rfl rfl

theorem passCount_next (h : InIntRange i j k) : passCount i j k = passCount (i + k) j k + 1 := by
  have hpos {i j k : Int} (hk : 0 < k) (hij : i ≤ j) :
      passCount i j k = passCount (i + k) j k + 1 := by
    have hquot : j - (i + k) = j - i + (-1) * k := by omega
    have hdiv := Int.ediv_nonneg (sub_nonneg.mpr hij) hk.le
    unfold passCount
    rw [if_pos (.inl ⟨hk, hij⟩), Int.fdiv_eq_ediv_of_nonneg _ hk.le,
      Int.fdiv_eq_ediv_of_nonneg _ hk.le, hquot, Int.add_mul_ediv_right _ _ hk.ne']
    by_cases hnext : InIntRange (i + k) j k
    · rw [if_pos hnext]
      omega
    · have hlt : j - i < k := by
        unfold InIntRange at hnext
        omega
      rw [if_neg hnext, Int.ediv_eq_zero_of_lt (sub_nonneg.mpr hij) hlt]
      rfl
  rcases h with ⟨hk, hij⟩ | ⟨hk, hij⟩
  · exact hpos hk hij
  · rw [← passCount_neg i j k, ← passCount_neg (i + k) j k, Int.neg_add]
    exact hpos (by omega) (by omega)

theorem passCount_eq_zero_iff : passCount i j k = 0 ↔ ¬ InIntRange i j k := by
  constructor
  · intro h hrange
    rw [passCount_next hrange] at h
    cases h
  · exact fun h => if_neg h

theorem passCount_later {p : Nat} (hp : p ≤ passCount i j k) :
    passCount (i + p * k) j k = passCount i j k - p := by
  induction p with
  | zero => simp
  | succ p ih =>
    have hlater := ih (Nat.le_of_succ_le hp)
    have hrange : InIntRange (i + p * k) j k := by
      by_contra h
      have := passCount_eq_zero_iff.mpr h
      omega
    have hnext := passCount_next hrange
    have hshift : i + (p + 1 : Nat) * k = i + p * k + k := by
      rw [Nat.cast_add, Nat.cast_one, add_mul, one_mul]
      omega
    rw [hshift]
    omega

end PassCount

theorem inRange_iff {a b c : Float} {i j k : Int} (ha : Denotes a i) (hb : Denotes b j)
    (hc : Denotes c k) : DataStep.Exec.inRange c b a = true ↔ InIntRange i j k := by
  simp only [DataStep.Exec.inRange, Bool.or_eq_true, Bool.and_eq_true, decide_eq_true_eq,
    denotes_zero.lt_iff hc, hc.lt_iff denotes_zero, ha.le_iff hb, hb.le_iff ha]
  rfl

/-! ### The index -/

namespace Variables

/-- A variable of that name, if there is one, is numeric. -/
def NumericIn (vs : Variables) (name : String) : Prop :=
  ∀ v, vs.find? name = some v → v.kind = .numeric

/-- The variable of that name is numeric and has the number as its value. -/
def HoldsNumber (vs : Variables) (name : String) (x : Float) : Prop :=
  ∃ v, vs.find? name = some v ∧ v.kind = .numeric ∧ v.value = .number x

variable {vs : Variables} {name column : String} {x : Float}

theorem HoldsNumber.get (h : vs.HoldsNumber name x) : vs.get name = .number x := by
  obtain ⟨v, hv, -, hx⟩ := h
  rw [Variables.get, hv]
  exact hx

theorem HoldsNumber.numericIn (h : vs.HoldsNumber name x) : vs.NumericIn name := by
  obtain ⟨v, hv, hk, -⟩ := h
  intro w hw
  cases hv.symm.trans hw
  exact hk

theorem HoldsNumber.set_other (h : vs.HoldsNumber name x)
    (hn : Text.upper column ≠ Text.upper name) (value : Value) :
    (vs.set column value).HoldsNumber name x := by
  obtain ⟨v, hv, h⟩ := h
  exact ⟨v, (find?_set_other hn value).trans hv, h⟩

theorem NumericIn.holdsNumber_set (h : vs.NumericIn name) (x : Float) :
    (vs.set name (.number x)).HoldsNumber name x := by
  have hfit (v : Variable) (hk : v.kind = .numeric) : (v.store (.number x)).value = .number x := by
    simp only [Variable.store, Variable.fit, hk, Value.convert]
  by_cases hm : vs.Has name
  · obtain ⟨v, hv⟩ := Option.isSome_iff_exists.mp ((vs.find?_isSome_iff name).mpr hm)
    refine ⟨v.store (.number x), ?_, h v hv, hfit v (h v hv)⟩
    rw [find?_set_self hm rfl, hv]
    rfl
  · refine ⟨({ name, kind := .numeric } : Variable).store (.number x), ?_, rfl, hfit _ rfl⟩
    have hnone : vs.find? name = none := by
      rw [← Option.not_isSome_iff_eq_none, find?_isSome_iff]
      exact hm
    unfold find? at hnone
    rw [set_of_not_has hm, find?, List.find?_append, hnone, Option.none_or, List.find?_singleton,
      Variable.key_store, if_pos (beq_self_eq_true _)]
    rfl

end Variables

namespace DataStep

open Exec

variable {step : Step} {n : Nat} {f : Frame} {index : String} {first last : Expression}
  {increment : Option Expression} {body : List StepStatement} {a b c : Value} {i j k : Int}

theorem keeps_index (hbody : ∀ s ∈ bodyParts body, ∀ name ∈ s.targets step.arrays,
      Text.upper name ≠ Text.upper index) (x : Float) :
    Keeps (fun f => f.vars.HoldsNumber index x) (runAll step n body) :=
  Fragment.run_keeps_vars (J := fun vs => vs.HoldsNumber index x) (.all body)
    fun s hs name hn _ _ h => h.set_other (hbody s hs name hn) _

/-- The passes of a loop that counts: the index has the next multiple of the increment in each, and
the last one ends the loop or its passes. -/
theorem exists_rangePasses {m : Exec Flow} {y z : Float} (hy : Denotes y j) (hz : Denotes z k)
    (hkeep : ∀ x, Keeps (fun f => f.vars.HoldsNumber index x) m) (limit : Nat) {x : Float}
    (hx : Denotes x i) (hindex : f.vars.NumericIn index)
    (hsmall : ∀ p ≤ min (passCount i j k) limit, (i + p * k).natAbs < 2 ^ 53)
    (hends : ∀ g, RangePass index z y m limit x f g → ∃ h, m.out g = (.ok .next, h)) :
    ∃ starts x' g, starts.length = min (passCount i j k) limit ∧
      RangePasses index z y m starts x f x' g ∧
      Denotes x' (i + starts.length * k) ∧ g.vars.NumericIn index ∧
      ∀ p (hp : p < starts.length), ∃ x, starts[p].vars.HoldsNumber index x ∧
        Denotes x (i + p * k) := by
  induction limit generalizing f i x with
  | zero =>
    refine ⟨[], x, f, by simp, .nil, by simpa using hx, hindex, ?_⟩
    intro p hp
    cases hp
  | succ limit ih =>
    by_cases hrange : InIntRange i j k
    · have hcount := passCount_next hrange
      have hin := (inRange_iff hx hy hz).mpr hrange
      have hset := hindex.holdsNumber_set x
      obtain ⟨g, hg⟩ := hends _ (.first hin)
      have hhold : g.vars.HoldsNumber index x := (hkeep x).of_out hg hset
      have hnext : (g.vars.get index).toNumber + z = x + z := by
        rw [hhold.get]
        rfl
      have hshift (p : Nat) : i + k + p * k = i + (p + 1 : Nat) * k := by
        rw [Nat.cast_add, Nat.cast_one, add_mul, one_mul]
        omega
      have hsum : Denotes (x + z) (i + k) := by
        refine hx.add hz ?_
        have hone := hsmall 1 (by omega)
        rwa [Nat.cast_one, one_mul] at hone
      obtain ⟨starts, x', h, hlength, hp, hx', hindex', hstarts⟩ := ih hsum hhold.numericIn
        (fun p hp => by rw [hshift]; exact hsmall (p + 1) (by omega))
        (fun h hh => hends h (.next hin hg (by rwa [hnext])))
      rw [hshift] at hx'
      refine ⟨_ :: starts, x', h, ?_, .cons hin hg (by rwa [hnext]), hx', hindex', ?_⟩
      · rw [List.length_cons, hlength]
        omega
      · rintro (_ | p) hp
        · exact ⟨x, hset, by simpa using hx⟩
        · obtain ⟨y, hy, hy'⟩ := hstarts p (Nat.lt_of_succ_lt_succ hp)
          exact ⟨y, hy, by rwa [← hshift]⟩
    · have hcount : passCount i j k = 0 := passCount_eq_zero_iff.mpr hrange
      refine ⟨[], x, f, by simp [hcount], .nil, by simpa using hx, hindex, ?_⟩
      intro p hp
      cases hp

/-- The bounds of a loop over a range are evaluated once; the increment is one unless it is
given. -/
theorem out_bounds (ha : evaluate (step.scope n f.vars) first = .ok a)
    (hb : evaluate (step.scope n f.vars) last = .ok b)
    (hc : increment.elim (.ok (.number 1.0)) (evaluate (step.scope n f.vars)) = .ok c)
    (h : checkBounds index a.toNumber b.toNumber c.toNumber = .ok ()) :
    ∃ log, (bounds step n index first last increment).out f =
      (.ok (a.toNumber, b.toNumber, c.toNumber), { f with log }) := by
  have hincrement (log : Log) : ∃ log', (evalIncrement step n increment).out { f with log } =
      (.ok c.toNumber, { f with log := log' }) := by
    cases increment with
    | none =>
      cases hc
      exact ⟨log, rfl⟩
    | some e =>
      have hc : evaluate (step.scope n f.vars) e = .ok c := hc
      refine ⟨log ++ evaluationLog (step.scope n f.vars) e, ?_⟩
      rw [evalIncrement, out_bind, out_eval, hc]
      rfl
  obtain ⟨log, hlog⟩ := hincrement
    (f.log ++ evaluationLog (step.scope n f.vars) first ++ evaluationLog (step.scope n f.vars) last)
  refine ⟨log, ?_⟩
  rw [bounds, out_bind, out_eval, ha]
  dsimp only
  rw [out_bind, out_eval, hb]
  dsimp only
  rw [out_bind, hlog]
  dsimp only
  rw [h, out_bind, out_ofExcept]
  rfl

theorem checkBounds_eq_ok {x y z : Float} (hx : Denotes x i) (hy : Denotes y j)
    (hz : Denotes z k) (hk : k ≠ 0) : checkBounds index x y z = .ok () := by
  have hzero : (z == 0.0) = false := by
    rw [Bool.eq_false_iff, Ne, hz.beq_iff denotes_zero]
    exact hk
  simp only [checkBounds, hx.isNaN, hy.isNaN, hz.isNaN, hzero, Bool.false_eq_true, if_false]

/-- A loop over a range of integers makes the passes that the range has room for, with the index at
the next multiple of the increment in each. It leaves the first one outside of the range in the
index, or fails after as many passes as it may make. -/
theorem iterate_counts (ha : evaluate (step.scope n f.vars) first = .ok a)
    (hb : evaluate (step.scope n f.vars) last = .ok b)
    (hc : increment.elim (.ok (.number 1.0)) (evaluate (step.scope n f.vars)) = .ok c)
    (hi : Denotes a.toNumber i) (hj : Denotes b.toNumber j) (hk : Denotes c.toNumber k)
    (hk0 : k ≠ 0) (hindex : f.vars.NumericIn index)
    (hsmall : ∀ p ≤ min (passCount i j k) step.setting.loopLimit, (i + p * k).natAbs < 2 ^ 53)
    (hbody : ∀ s ∈ bodyParts body, ∀ name ∈ s.targets step.arrays,
      Text.upper name ≠ Text.upper index)
    (hends : ∀ g, (bounds step n index first last increment).out f =
        (.ok (a.toNumber, b.toNumber, c.toNumber), g) →
      ∀ h, RangePass index c.toNumber b.toNumber (runAll step n body) step.setting.loopLimit
        a.toNumber g h → ∃ h', (runAll step n body).out h = (.ok .next, h')) :
    ∃ g starts x h, (bounds step n index first last increment).out f =
        (.ok (a.toNumber, b.toNumber, c.toNumber), g) ∧
      RangePasses index c.toNumber b.toNumber (runAll step n body) starts a.toNumber g x h ∧
      starts.length = min (passCount i j k) step.setting.loopLimit ∧
      (∀ p (hp : p < starts.length), ∃ y, starts[p].vars.get index = .number y ∧
        Denotes y (i + p * k)) ∧
      (passCount i j k ≤ step.setting.loopLimit →
        (runOne step n (.iterate index first last increment body)).out f =
          (.ok .next, { h with vars := h.vars.set index (.number x) }) ∧
        (h.vars.set index (.number x)).get index = .number x ∧
        Denotes x (i + passCount i j k * k)) ∧
      (step.setting.loopLimit < passCount i j k →
        (runOne step n (.iterate index first last increment body)).out f =
          (.error (.tooManyIterations step.setting.loopLimit), h)) := by
  have hcheck : checkBounds index a.toNumber b.toNumber c.toNumber = .ok () :=
    checkBounds_eq_ok hi hj hk hk0
  obtain ⟨log, hg⟩ := out_bounds ha hb hc hcheck
  obtain ⟨starts, x, h, hlength, hp, hx, hnumeric, hstarts⟩ :=
    exists_rangePasses (f := { f with log }) hj hk (keeps_index hbody) step.setting.loopLimit hi
      hindex hsmall (hends _ hg)
  refine ⟨_, starts, x, h, hg, hp, hlength, fun p hp => ?_, fun hle => ?_, fun hlt => ?_⟩
  · obtain ⟨y, hy, hy'⟩ := hstarts p hp
    exact ⟨y, hy.get, hy'⟩
  · rw [Nat.min_eq_left hle] at hlength
    rw [hlength] at hx
    have hout : inRange c.toNumber b.toNumber x = false := by
      rw [Bool.eq_false_iff, Ne, inRange_iff hx hj hk, ← passCount_eq_zero_iff,
        passCount_later (Nat.le_refl _), Nat.sub_self]
    refine ⟨?_, (hnumeric.holdsNumber_set x).get, hx⟩
    rw [runOne_iterate, out_bind, hg]
    exact hp.out_repeatRange_ends hout (hlength ▸ hle)
  · rw [Nat.min_eq_right hlt.le] at hlength
    rw [hlength] at hx
    have hin : inRange c.toNumber b.toNumber x = true := by
      rw [inRange_iff hx hj hk]
      by_contra hrange
      have hcount := passCount_eq_zero_iff.mpr hrange
      rw [passCount_later hlt.le] at hcount
      omega
    rw [runOne_iterate, out_bind, hg, ← hlength]
    exact hp.out_repeatRange_outlasts hin

def tenPasses : Step where
  setting := Setting.reading visits ["out"]
  arrays := {}
  columns := ["i", "last"]
  explicitOutput := false

/-- The body stores the index, so the loop could not count if the bounds were evaluated again. -/
def countDown : StepStatement :=
  .iterate "i" (.ref "last") (.number 4.0) (some (.unary .neg (.number 3.0)))
    [.assign (.ref "last") (.ref "i")]

def atTen : Frame := ⟨Variables.empty.set "last" (.number 10.0), [false], #[]⟩

theorem iterate_counts_down : ∃ g, (runOne tenPasses 1 countDown).out atTen = (.ok .next, g) ∧
    ∃ x, g.vars.get "i" = .number x ∧ Denotes x 1 := by
  have hten : Denotes (10.0 : Float) 10 := ⟨rfl, by decide +kernel⟩
  have hfour : Denotes (4.0 : Float) 4 := ⟨rfl, by decide +kernel⟩
  have hthree : Denotes (-3.0 : Float) (-3) := ⟨by decide +kernel, by decide +kernel⟩
  have hcount : passCount 10 4 (-3) = 3 := by decide
  have hindex : atTen.vars.NumericIn "i" := by
    intro v hv
    have hnone : atTen.vars.find? "i" = none := by decide +kernel
    rw [hnone] at hv
    cases hv
  obtain ⟨g, starts, x, h, -, -, -, -, hnext, -⟩ := @iterate_counts tenPasses 1 atTen "i"
    (.ref "last") (.number 4.0) (some (.unary .neg (.number 3.0)))
    [.assign (.ref "last") (.ref "i")] (.number 10.0) (.number 4.0) (.number (-3.0)) 10 4 (-3)
    (by decide +kernel) rfl rfl hten hfour hthree (by decide) hindex
    (by decide) (by decide +kernel) (fun _ _ _ _ => ⟨_, rfl⟩)
  obtain ⟨hout, hget, hx⟩ := hnext (by decide)
  exact ⟨_, hout, x, hget, by rwa [hcount] at hx⟩

end DataStep

end StepLang
