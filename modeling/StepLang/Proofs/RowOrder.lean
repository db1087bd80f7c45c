import StepLang.Dataset.Order
import StepLang.Proofs.NumberOrder

/-! # The order of rows

Rows are compared key by key, and a key that a row lacks, or that has values of two kinds, does not
decide; on such rows the comparison is no order. Where every row has every key, with values of one
kind, it agrees with a total order of all rows.
-/

namespace StepLang

instance : Std.TransCmp compareTexts :=
  inferInstanceAs (Std.TransCmp (compareOn Text.trimEnd))

/-! ### Values -/

/-- All values in one order, numbers before texts. -/
def Value.order : Value → Value → Ordering
  | .number x, .number y => orderNumbers x y
  | .number _, .text _ => .lt
  | .text _, .number _ => .gt
  | .text s, .text t => compareTexts s t

instance : Std.TransCmp Value.order where
  eq_swap {v w} := by
    cases v with
    | number x =>
      cases w with
      | number y => exact @Std.OrientedCmp.eq_swap _ orderNumbers _ x y
      | text t => rfl
    | text s =>
      cases w with
      | number y => rfl
      | text t => exact @Std.OrientedCmp.eq_swap _ compareTexts _ s t
  isLE_trans {u v w} huv hvw := by
    cases v with
    | number y =>
      cases u with
      | text s => cases huv
      | number x =>
        cases w with
        | number z => exact @Std.TransCmp.isLE_trans _ orderNumbers _ x y z huv hvw
        | text t => rfl
    | text t =>
      cases w with
      | number z => cases hvw
      | text t' =>
        cases u with
        | number x => rfl
        | text s => exact @Std.TransCmp.isLE_trans _ compareTexts _ s t t' huv hvw

instance : Ord Value := ⟨Value.order⟩

instance : Std.TransOrd Value := inferInstanceAs (Std.TransCmp Value.order)

theorem Value.order?_of_kind {v w : Value} (h : v.kind = w.kind) :
    v.order? w = some (v.order w) := by
  cases v with
  | number x =>
    cases w with
    | number y => rfl
    | text t => cases h
  | text s =>
    cases w with
    | number y => cases h
    | text t => rfl

/-! ### Keys -/

namespace ByVariable

/-- The order in one key, for all rows: those without the key come first. -/
def totalOrder (key : ByVariable) : Row → Row → Ordering :=
  if key.descending then fun r s => compareOn (Row.get? · key.name) s r
  else compareOn (Row.get? · key.name)

instance (key : ByVariable) : Std.TransCmp key.totalOrder := by
  unfold totalOrder
  split
  · exact Std.TransCmp.opposite
  · infer_instance

def Comparable (key : ByVariable) (r s : Row) : Prop :=
  ∃ v w, r.get? key.name = some v ∧ s.get? key.name = some w ∧ v.kind = w.kind

theorem Comparable.order_eq {key : ByVariable} {r s : Row} (h : key.Comparable r s) :
    key.order r s = key.totalOrder r s := by
  obtain ⟨v, w, hv, hw, hk⟩ := h
  simp only [order, totalOrder, hv, hw, Value.order?_of_kind hk]
  cases key.descending with
  | false =>
    simp only [Bool.false_eq_true, if_false, compareOn, hv, hw]
    rfl
  | true =>
    simp only [if_true, compareOn, hv, hw]
    exact (@Std.OrientedCmp.eq_swap Value compare _ w v).symm

end ByVariable

/-- All rows in one order of the keys. -/
def totalOrder : List ByVariable → Row → Row → Ordering
  | [] => fun _ _ => .eq
  | key :: keys => compareLex key.totalOrder (totalOrder keys)

instance (keys : List ByVariable) : Std.TransCmp (totalOrder keys) := by
  induction keys with
  | nil => exact { eq_swap := rfl, isLE_trans := fun _ _ => rfl }
  | cons key keys ih =>
    unfold totalOrder
    infer_instance

theorem compareRows_cons (key : ByVariable) (keys : List ByVariable) (r s : Row) :
    compareRows (key :: keys) r s = (key.order r s).then (compareRows keys r s) := by
  simp only [compareRows]
  cases key.order r s <;> rfl

theorem compareRows_eq_totalOrder {keys : List ByVariable} {r s : Row}
    (h : ∀ key ∈ keys, key.Comparable r s) : compareRows keys r s = totalOrder keys r s := by
  induction keys with
  | nil => rfl
  | cons key keys ih =>
    rw [compareRows_cons, (h key List.mem_cons_self).order_eq,
      ih fun k hk => h k (List.mem_cons_of_mem _ hk)]
    rfl

theorem compareRows_eq_eq_iff {keys : List ByVariable} {r s : Row} :
    compareRows keys r s = .eq ↔ ∀ key ∈ keys, key.order r s = .eq := by
  induction keys with
  | nil => simp [compareRows]
  | cons key keys ih => simp [compareRows_cons, ih]

/-! ### Uniform keys -/

/-- Every row has every key, and each key has values of one kind. -/
def UniformKeys (keys : List ByVariable) (rows : List Row) : Prop :=
  ∀ key ∈ keys, ∃ kind, ∀ r ∈ rows, ∃ v, r.get? key.name = some v ∧ v.kind = kind

theorem isUniform_iff {key : ByVariable} {rows : List Row} : key.isUniform rows = true ↔
    ∃ kind, ∀ r ∈ rows, ∃ v, r.get? key.name = some v ∧ v.kind = kind := by
  have h (kind : Kind) (r : Row) : (r.get? key.name).any (·.kind == kind) = true ↔
      ∃ v, r.get? key.name = some v ∧ v.kind = kind := by
    cases r.get? key.name <;> simp
  simp only [ByVariable.isUniform, List.any_eq_true, List.all_eq_true, h]
  constructor
  · rintro ⟨kind, -, hr⟩
    exact ⟨kind, hr⟩
  · rintro ⟨kind, hr⟩
    exact ⟨kind, by cases kind <;> simp, hr⟩

theorem uniformKeys_iff {keys : List ByVariable} {rows : List Row} :
    UniformKeys keys rows ↔ keys.all (·.isUniform rows) = true := by
  simp only [UniformKeys, List.all_eq_true, isUniform_iff]

instance (keys : List ByVariable) (rows : List Row) : Decidable (UniformKeys keys rows) :=
  decidable_of_iff _ uniformKeys_iff.symm

namespace UniformKeys

variable {keys : List ByVariable} {rows : List Row}

theorem mono (h : UniformKeys keys rows) {rows' : List Row} (hs : ∀ r ∈ rows', r ∈ rows) :
    UniformKeys keys rows' := by
  intro key hk
  obtain ⟨kind, hr⟩ := h key hk
  exact ⟨kind, fun r hm => hr r (hs r hm)⟩

theorem comparable (h : UniformKeys keys rows) {r s : Row} (hr : r ∈ rows) (hs : s ∈ rows) :
    ∀ key ∈ keys, key.Comparable r s := by
  intro key hk
  obtain ⟨kind, hu⟩ := h key hk
  obtain ⟨v, hv, hvk⟩ := hu r hr
  obtain ⟨w, hw, hwk⟩ := hu s hs
  exact ⟨v, w, hv, hw, hvk.trans hwk.symm⟩

theorem compareRows_eq (h : UniformKeys keys rows) {r s : Row} (hr : r ∈ rows) (hs : s ∈ rows) :
    compareRows keys r s = totalOrder keys r s :=
  compareRows_eq_totalOrder (h.comparable hr hs)

end UniformKeys

/-! ### Groups -/

def Value.isInfinite : Value → Bool
  | .number x => x.isInf
  | .text _ => false

def Row.KeysBounded (keys : List ByVariable) (r : Row) : Prop :=
  ∀ key ∈ keys, ∀ v ∈ r.get? key.name, v.isInfinite = false

instance (keys : List ByVariable) (r : Row) : Decidable (r.KeysBounded keys) :=
  inferInstanceAs (Decidable (∀ key ∈ keys, ∀ v ∈ r.get? key.name, v.isInfinite = false))

/-- Values that the order does not tell apart compare equal, unless they are infinite. -/
theorem Value.compare?_of_order? {v w : Value} (h : v.order? w = some .eq)
    (hv : v.isInfinite = false) : v.compare? w = some .eq := by
  cases v with
  | number x =>
    cases w with
    | number y =>
      have hxy : orderNumbers x y = .eq := Option.some.inj h
      exact congrArg some (compareNumbers_of_orderNumbers hxy hv)
    | text t => cases h
  | text s =>
    cases w with
    | number y => cases h
    | text t => exact h

/-- If both values are numbers and none is missing, they are equal or at least the tolerance
apart. -/
def Value.Separated : Value → Value → Prop
  | .number x, .number y => x.isNaN ∨ y.isNaN ∨ x == y ∨ tolerance ≤ (x - y).abs
  | _, _ => True

instance : (v w : Value) → Decidable (v.Separated w)
  | .number x, .number y =>
    inferInstanceAs (Decidable (x.isNaN ∨ y.isNaN ∨ x == y ∨ tolerance ≤ (x - y).abs))
  | .number _, .text _ => .isTrue trivial
  | .text _, .number _ => .isTrue trivial
  | .text _, .text _ => .isTrue trivial

theorem Value.order?_of_compare? {v w : Value} (h : v.compare? w = some .eq)
    (hs : v.Separated w) : v.order? w = some .eq := by
  cases v with
  | number x =>
    cases w with
    | number y =>
      have hxy : compareNumbers x y = .eq := Option.some.inj h
      exact congrArg some (orderNumbers_of_compareNumbers hxy hs)
    | text t => cases h
  | text s =>
    cases w with
    | number y => cases h
    | text t => exact h

/-- A row is in its own group, whichever keys it lacks. -/
theorem sameKeys_self {keys : List ByVariable} {r : Row} (h : r.KeysBounded keys) :
    sameKeys keys r r = true := by
  rw [sameKeys, List.all_eq_true]
  intro key hk
  unfold ByVariable.matches
  cases hv : r.get? key.name with
  | none => rfl
  | some v =>
    have hself : v.order? v = some .eq := by
      rw [Value.order?_of_kind rfl, @Std.ReflCmp.compare_self _ Value.order]
    simp only [Value.compare?_of_order? hself (h key hk v hv)]
    rfl

end StepLang
