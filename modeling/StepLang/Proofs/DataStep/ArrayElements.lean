import StepLang.Proofs.DataStep.Contexts
import StepLang.Proofs.DataStep.LoadOrder

/-! # Elements of arrays

An element of an array is the variable whose name stands at the place that the subscript denotes.
Evaluation reads it and assignment stores into it, each in its own way; both find the same variable
or fail with the same error. So an element reads what was stored last into its variable, under
whatever place or spelling.
-/

namespace StepLang

namespace Variables

variable {vs : Variables} {name : String} {i : Nat} {w : Variable}

theorem exists_of_index? (h : vs.index? name = some i) :
    ∃ w, vs.entries[i]? = some w ∧ vs.find? name = some w := by
  obtain ⟨hlt, hkey, hfirst⟩ := List.findIdx?_eq_some_iff_getElem.mp h
  refine ⟨vs.entries[i], List.getElem?_eq_getElem hlt, ?_⟩
  apply List.find?_eq_some_iff_getElem.mpr
  refine ⟨hkey, i, hlt, rfl, fun j hj => ?_⟩
  simpa using hfirst j hj

theorem entries_storeAt (h : vs.entries[i]? = some w) (value : Value) :
    (vs.storeAt i value).entries = vs.entries.set i (w.store value) := by
  obtain ⟨hlt, hw⟩ := List.getElem?_eq_some_iff.mp h
  apply List.ext_getElem?
  intro j
  rw [storeAt, List.getElem?_modify, List.getElem?_set]
  by_cases hij : i = j
  · subst hij
    simp [hlt, hw]
  · simp [hij]

/-- After storing under one name, the same name in any case of letters has the stored value, and
every other name has the value it had. -/
theorem get_set (h : vs.find? name = some w) (value : Value) (other : String) :
    (vs.set name value).get other =
      if Text.sameName other name then w.fit value else vs.get other := by
  by_cases hn : Text.sameName other name = true
  · have hupper := (Text.sameName_iff.mp hn).symm
    have hhas : vs.Has name := (vs.find?_isSome_iff name).mp (by rw [h]; rfl)
    have hother : vs.find? other = some w := by rw [← h, find?, find?, hupper]
    rw [if_pos hn, get, find?_set_self hhas hupper, hother]
    rfl
  · have hupper : Text.upper name ≠ Text.upper other := fun he =>
      hn (Text.sameName_iff.mpr he.symm)
    rw [if_neg hn, get, find?_set_other hupper, get]

end Variables

/-- The whole number that a value denotes as a subscript: its number without the fraction. The
missing number denotes none. -/
def Value.position? (v : Value) : Option Int :=
  if v.toNumber.isNaN then none else some (Number.clamp .signed64 v.toNumber)

namespace DataStep

open Exec

/-- The variable that a value picks as a subscript, counted from one. -/
def ArrayDef.pick? (a : ArrayDef) (v : Value) : Option String :=
  v.position?.bind fun i => if 1 ≤ i then a.vars[i.toNat - 1]? else none

def ArrayDef.outOfRange (a : ArrayDef) (array : String) (v : Value) : Error :=
  .subscriptOutOfRange array (v.position?.getD 0) a.vars.length

namespace ArrayDef

variable {a : ArrayDef} {v : Value} {x : String}

/-- A value picks a variable if it denotes a whole number from one to the count of the variables. -/
theorem pick?_eq_some_iff :
    a.pick? v = some x ↔ ∃ k : Nat, v.position? = some (k + 1 : Int) ∧ a.vars[k]? = some x := by
  unfold pick?
  constructor
  · intro h
    obtain ⟨i, hi, h⟩ := Option.bind_eq_some_iff.mp h
    split at h
    · refine ⟨i.toNat - 1, ?_, h⟩
      rw [hi]
      congr 1
      omega
    · cases h
  · rintro ⟨k, hk, hx⟩
    have hle : (1 : Int) ≤ k + 1 := by omega
    simp [hk, hx, hle]

/-- No variable is picked by the missing number, and by a number whose whole part is not from one to
the count of the variables. -/
theorem pick?_eq_none_iff :
    a.pick? v = none ↔ v.toNumber.isNaN = true ∨ Number.clamp .signed64 v.toNumber < 1 ∨
      (a.vars.length : Int) < Number.clamp .signed64 v.toNumber := by
  unfold pick? Value.position?
  cases hnan : v.toNumber.isNaN with
  | true => simp
  | false =>
    simp only [Bool.false_eq_true, if_false, Option.bind_some, false_or]
    generalize Number.clamp .signed64 v.toNumber = i
    by_cases hi : 1 ≤ i
    · rw [if_pos hi, List.getElem?_eq_none_iff]
      omega
    · rw [if_neg hi]
      simp only [true_iff]
      omega

end ArrayDef

/-- Finds the variable of an element whose subscript has a value. -/
def locate (arrays : NameMap ArrayDef) (array : String) (v : Value) : Except Error String := do
  let i ← subscript array ((arrays.find? array).map (·.vars.length)) v
  elementVariable arrays array i

theorem subscript_eq (array : String) (size : Option Nat) (v : Value) :
    subscript array size v =
      v.position?.elim (.error (.subscriptOutOfRange array 0 (size.getD 0))) .ok := by
  unfold subscript Value.position?
  change (if v.toNumber.isNaN = true then _ else _) = _
  split <;> rfl

section Locate

variable {arrays : NameMap ArrayDef} {array : String} {a : ArrayDef}

theorem elementVariable_eq (ha : arrays.find? array = some a) (i : Int) :
    elementVariable arrays array i =
      (if 1 ≤ i then a.vars[i.toNat - 1]? else none).elim
        (.error (.subscriptOutOfRange array i a.vars.length)) .ok := by
  simp only [elementVariable, ha]
  by_cases hi : i < 1
  · rw [if_pos hi, if_neg (by omega)]
    rfl
  · rw [if_neg hi, if_pos (by omega)]
    cases a.vars[i.toNat - 1]? <;> rfl

/-- In a declared array the variable that is found is the one picked, and nothing else fails than
picking none. -/
theorem locate_eq (ha : arrays.find? array = some a) (v : Value) :
    locate arrays array v = (a.pick? v).elim (.error (a.outOfRange array v)) .ok := by
  unfold locate ArrayDef.pick? ArrayDef.outOfRange
  rw [subscript_eq, ha]
  cases v.position? with
  | none => rfl
  | some i => exact elementVariable_eq ha i

end Locate

section Access

variable {step : Step} {n : Nat} {array : String} {a : ArrayDef} {vs : Variables}
  {index value : Expression} {i v : Value} {f : Frame}

theorem evaluate_element (hi : evaluate (step.scope n vs) index = .ok i) :
    evaluate (step.scope n vs) (.element array index) =
      (locate step.arrays array i).map vs.get := by
  simp only [evaluate, hi]
  unfold locate
  change (subscript array ((step.arrays.find? array).map (·.vars.length)) i >>= _) = _
  cases subscript array ((step.arrays.find? array).map (·.vars.length)) i with
  | error e => rfl
  | ok k =>
    change (elementVariable step.arrays array k >>= _) = (elementVariable step.arrays array k).map _
    cases elementVariable step.arrays array k <;> rfl

/-- Assigning to an element stores into the variable that is found, or fails as finding it fails. -/
theorem out_assign_element (array : String) (hv : evaluate (step.scope n f.vars) value = .ok v)
    (hi : evaluate (step.scope n f.vars) index = .ok i) :
    ∃ log, (∀ x, locate step.arrays array i = .ok x →
        (runOne step n (.assign (.element array index) value)).out f =
          (.ok .next, { f with vars := f.vars.set x v, log })) ∧
      ∀ e, locate step.arrays array i = .error e →
        (runOne step n (.assign (.element array index) value)).out f =
          (.error e, { f with log }) := by
  refine ⟨f.log ++ evaluationLog (step.scope n f.vars) value ++
    evaluationLog (step.scope n f.vars) index, ?_, ?_⟩
  · intro x hx
    obtain ⟨k, hk, hx⟩ := bind_eq_ok_iff.mp hx
    unfold runOne assign
    simp only [out_bind, out_eval, hv, hi, hk, hx, out_ofExcept, out_store, out_pure]
  · intro e he
    unfold runOne assign
    simp only [out_bind, out_eval, hv, hi, out_ofExcept]
    unfold locate at he
    cases hk : subscript array ((step.arrays.find? array).map (·.vars.length)) i with
    | error e' =>
      rw [hk] at he
      obtain rfl := Except.error.inj he
      rfl
    | ok k =>
      rw [hk] at he
      have he : elementVariable step.arrays array k = .error e := he
      simp only [he]

/-- What the elements of a declared array do in a frame. The array has the variables of `a`; `index`
and `value` have the values `i` and `v` there. -/
structure ElementAccess (step : Step) (n : Nat) (f : Frame) (array : String) (a : ArrayDef)
    (index value : Expression) (i v : Value) : Prop where
  /-- A value picks no variable if it is missing, or if its whole part is not from one to the
  size. -/
  outside : ∀ j : Value, a.pick? j = none ↔
    j.toNumber.isNaN = true ∨ Number.clamp .signed64 j.toNumber < 1 ∨
      (a.vars.length : Int) < Number.clamp .signed64 j.toNumber
  /-- A subscript that picks a variable has the value stored into the entry of this variable,
  converted to its kind and cut to its length. No other entry changes. Behind it the elements that
  pick this variable, in any case of letters, read the stored value, and the others read what they
  did. -/
  stored : ∀ x, a.pick? i = some x → ∃ slot w g,
    f.vars.index? x = some slot ∧ f.vars.entries[slot]? = some w ∧
    (runOne step n (.assign (.element array index) value)).out f = (.ok .next, g) ∧
    g.vars.entries = f.vars.entries.set slot (w.store v) ∧ g.requested = f.requested ∧
    ∀ index' j y, evaluate (step.scope n g.vars) index' = .ok j → a.pick? j = some y →
      evaluate (step.scope n g.vars) (.element array index') =
        .ok (if Text.sameName y x then w.fit v else f.vars.get y)
  /-- A subscript that picks none fails, and no variable changes. -/
  refused : a.pick? i = none → ∃ g,
    (runOne step n (.assign (.element array index) value)).out f =
      (.error (a.outOfRange array i), g) ∧ g.vars = f.vars ∧ g.requested = f.requested
  /-- Whatever the variables hold, reading an element gives the value of the variable that is
  picked, and fails with the same error if none is. -/
  read : ∀ vs index' j, evaluate (step.scope n vs) index' = .ok j →
    evaluate (step.scope n vs) (.element array index') =
      (a.pick? j).elim (.error (a.outOfRange array j)) fun y => .ok (vs.get y)
  /-- The size of the array is the count of its variables. -/
  size : ∀ vs function, Text.sameName function "dim" = true →
    evaluate (step.scope n vs) (.call function [.ref array]) = .ok (.ofNat a.vars.length)

theorem read_element (ha : step.arrays.find? array = some a)
    (hi : evaluate (step.scope n vs) index = .ok i) :
    evaluate (step.scope n vs) (.element array index) =
      (a.pick? i).elim (.error (a.outOfRange array i)) fun y => .ok (vs.get y) := by
  rw [evaluate_element hi, locate_eq ha]
  cases a.pick? i <;> rfl

theorem size_element (ha : step.arrays.find? array = some a) {function : String}
    (hdim : Text.sameName function "dim" = true) :
    evaluate (step.scope n vs) (.call function [.ref array]) = .ok (.ofNat a.vars.length) := by
  have hsize : (step.scope n vs).arraySize? array = some a.vars.length :=
    congrArg (Option.map fun b : ArrayDef => b.vars.length) ha
  simp only [evaluate, hdim, if_true, dimension, hsize]

/-- Elements of an array whose variables are in the table read what was stored last. -/
theorem elementAccess (ha : step.arrays.find? array = some a) (hx : ∀ x ∈ a.vars, f.vars.Has x)
    (hv : evaluate (step.scope n f.vars) value = .ok v)
    (hi : evaluate (step.scope n f.vars) index = .ok i) :
    ElementAccess step n f array a index value i v := by
  obtain ⟨log, hok, herror⟩ := out_assign_element array hv hi
  rw [locate_eq ha] at hok herror
  constructor
  case outside => exact fun j => ArrayDef.pick?_eq_none_iff
  case stored =>
    intro x hpick
    obtain ⟨k, -, hk⟩ := ArrayDef.pick?_eq_some_iff.mp hpick
    obtain ⟨slot, hslot, hset⟩ := Variables.set_of_has (hx x (List.mem_of_getElem? hk)) v
    obtain ⟨w, hw, hfind⟩ := Variables.exists_of_index? hslot
    refine ⟨slot, w, _, hslot, hw, hok x (by rw [hpick]; rfl), ?_, rfl, ?_⟩
    · rw [hset]
      exact Variables.entries_storeAt hw v
    · intro index' j y hj hy
      rw [read_element ha hj, hy]
      exact congrArg Except.ok (Variables.get_set hfind v y)
  case refused =>
    intro hpick
    exact ⟨_, herror _ (by rw [hpick]; rfl), rfl, rfl⟩
  case read => exact fun vs index' j hj => read_element ha hj
  case size => exact fun vs function hdim => size_element ha hdim

end Access

/-- Wherever a statement of a running step starts, the elements of every declared array read what
was stored last, and subscripts outside the array fail without changing a variable. -/
theorem element_read_over_write {setting : Setting} {body : List StepStatement}
    {notes : List LogLine} {plan : Plan} {rows : List (Option Row)} {o : Observation}
    {s : StepStatement} {f : Frame} {array : String} {a : ArrayDef} {index value : Expression}
    {i v : Value} (hc : compile setting body = (notes, .ok (plan, rows)))
    (ho : o ∈ plan.history setting body rows)
    (hf : Reaches (plan.step setting) o.number (.all body) o.start s f)
    (ha : plan.arrays.find? array = some a)
    (hv : evaluate ((plan.step setting).scope o.number f.vars) value = .ok v)
    (hi : evaluate ((plan.step setting).scope o.number f.vars) index = .ok i) :
    ElementAccess (plan.step setting) o.number f array a index value i v := by
  have hoccurs := Plan.Occurs.reaches hc ho hf
  apply elementAccess ha ?_ hv hi
  exact fun x hx => hoccurs.has_element ha hx

def assignPart : StepStatement :=
  .assign (.element "part" (.number 3.5)) (.text "abc")

/-- An array that has one variable twice, with a length of its own. -/
def fillPart : List StepStatement :=
  [.array "part" .star .character ["p", "q", "P"], .length [⟨"p", .character, 2⟩], assignPart]

theorem element_read_over_write_fillPart : ∃ notes plan rows o f a,
    compile (Setting.reading visits ["out"]) fillPart = (notes, .ok (plan, rows)) ∧
      o ∈ plan.history (Setting.reading visits ["out"]) fillPart rows ∧
      Reaches (plan.step (Setting.reading visits ["out"])) o.number (.all fillPart) o.start
        assignPart f ∧
      plan.arrays.find? "part" = some a ∧
      evaluate ((plan.step (Setting.reading visits ["out"])).scope o.number f.vars) (.text "abc") =
        .ok (.text "abc") ∧
      evaluate ((plan.step (Setting.reading visits ["out"])).scope o.number f.vars) (.number 3.5) =
        .ok (.number 3.5) ∧
      a.pick? (.number 3.5) = some "P" ∧ a.pick? (.number 4.0) = none ∧
      ElementAccess (plan.step (Setting.reading visits ["out"])) o.number f "part" a (.number 3.5)
        (.text "abc") (.number 3.5) (.text "abc") := by
  obtain ⟨notes, ⟨plan, rows⟩, hc⟩ := exists_eq_of_isOk
    (show (compile (Setting.reading visits ["out"]) fillPart).2.isOk = true by decide +kernel)
  have hplan : (compile (Setting.reading visits ["out"]) fillPart).2.toOption.map
      (fun p => (p.2, (p.1.arrays.find? "part").map (·.vars))) =
        some ([none], some ["p", "q", "P"]) := by
    decide +kernel
  rw [hc] at hplan
  obtain ⟨hrows, harray⟩ := Prod.mk.inj (Option.some.inj hplan)
  have hrows : rows = [none] := hrows
  subst hrows
  obtain ⟨a, ha, hvars⟩ := Option.map_eq_some_iff.mp harray
  let o := (plan.step (Setting.reading visits ["out"])).process fillPart 1 plan.vars none
  have ho : o ∈ plan.history (Setting.reading visits ["out"]) fillPart [none] := by
    rw [Plan.history, Step.history]
    split
    · exact List.mem_singleton_self _
    · exact List.mem_cons_self
  have hf : Reaches (plan.step (Setting.reading visits ["out"])) o.number (.all fillPart) o.start
      assignPart o.start :=
    .tail rfl (.tail rfl (.head .here))
  have hlast : a.pick? (.number 3.5) = some "P" := by
    rw [ArrayDef.pick?, hvars]
    decide +kernel
  have hbeyond : a.pick? (.number 4.0) = none := by
    rw [ArrayDef.pick?, hvars]
    decide +kernel
  exact ⟨notes, plan, [none], o, o.start, a, hc, ho, hf, ha, rfl, rfl, hlast, hbeyond,
    element_read_over_write hc ho hf ha rfl rfl⟩

end DataStep

end StepLang
