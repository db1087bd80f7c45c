import StepLang.Proofs.DuplicateKeys
import StepLang.Proofs.Summary

/-! # The comparison and the order of values

Values of one kind are compared with a tolerance and sorted without one. The comparison only brings
values together that the order tells apart: what it tells apart itself, the order tells apart in the
same direction. An infinity is the exception. It has no difference from itself that could be within
the tolerance, so it compares greater than itself, although the order puts it level.
-/

namespace StepLang

/-! ### Numbers -/

section Numbers

variable {x y : Float}

/-- Numbers compare equal or as they are ordered, unless they are one infinity. -/
theorem compareNumbers_eq_or (h : ¬ (x.isInf = true ∧ orderNumbers x y = .eq)) :
    compareNumbers x y = .eq ∨ compareNumbers x y = orderNumbers x y := by
  rw [or_iff_not_imp_left]
  intro hne
  have hlevel : orderNumbers x y ≠ .eq := by
    intro heq
    have hinf : x.isInf = false := Bool.eq_false_iff.mpr fun hx => h ⟨hx, heq⟩
    exact hne (compareNumbers_of_orderNumbers heq hinf)
  unfold compareNumbers at hne ⊢
  unfold orderNumbers at hlevel ⊢
  split at hne
  · next hx => simp only [hx, if_true]
  · next hx =>
    split at hne
    · next hy => simp only [hx, hy, if_true, if_false, Bool.false_eq_true]
    · next hy =>
      have hfar : ¬ (x - y).abs < tolerance := fun hnear => hne (if_pos hnear)
      simp only [hx, hy, if_false, Bool.false_eq_true] at hlevel ⊢
      -- beyond the tolerance only the cases "less" and "greater" of the order are left
      rw [if_neg hfar]
      split
      · rfl
      · next hlt =>
        rw [if_neg hlt] at hlevel
        split at hlevel
        · next hgt => rw [if_pos hgt]
        · exact absurd rfl hlevel

theorem compareNumbers_swap (h : ¬ (x.isInf = true ∧ orderNumbers x y = .eq)) :
    compareNumbers y x = (compareNumbers x y).swap := by
  by_cases heq : compareNumbers x y = .eq
  · rw [heq, compareNumbers_symm heq]
    rfl
  · have hxy := (compareNumbers_eq_or h).resolve_left heq
    have hlevel : orderNumbers y x ≠ .eq := by
      rw [@Std.OrientedCmp.eq_swap _ orderNumbers _ y x, ← hxy]
      intro hswap
      exact heq (Ordering.swap_eq_eq.mp hswap)
    have hne : compareNumbers y x ≠ .eq := fun hyx => heq (compareNumbers_symm hyx)
    have hyx := (compareNumbers_eq_or fun hinf => hlevel hinf.2).resolve_left hne
    rw [hyx, hxy]
    exact Std.OrientedCmp.eq_swap

/-- An infinity is neither finite nor missing, so it compares equal to no number. -/
theorem compareNumbers_ne_eq_of_infinite (hx : x.isInf = true) : compareNumbers x y ≠ .eq := by
  change x.toModel.unpack.isInf = true at hx
  rw [Ne, compareNumbers_eq_eq_iff]
  change ¬ (x.toModel.unpack.isNaN = true ∧ _ ∨ _)
  generalize x.toModel.unpack = u at hx ⊢
  cases u with
  | infinity sign =>
    rintro (⟨⟨⟩, -⟩ | ⟨⟨⟩, -⟩)
  | _ => cases hx

theorem compareNumbers_of_infinite (hx : x.isInf = true) (h : orderNumbers x y = .eq) :
    compareNumbers x y = .gt := by
  have hne := compareNumbers_ne_eq_of_infinite hx (y := y)
  unfold compareNumbers at hne ⊢
  unfold orderNumbers at h
  split at h
  · next hnan =>
    split at h
    · next hnan' => exact absurd ((if_pos hnan).trans (if_pos hnan')) hne
    · cases h
  · next hnan =>
    split at h
    · cases h
    · next hnan' =>
      simp only [hnan, hnan', if_false, Bool.false_eq_true] at hne ⊢
      split at h
      · cases h
      · next hlt =>
        rw [if_neg hlt] at hne ⊢
        exact if_neg fun hnear => hne (if_pos hnear)

end Numbers

/-! ### Values -/

namespace Value

def SameInfinity (v w : Value) : Prop := v.isInfinite = true ∧ v.order? w = some .eq

instance (v w : Value) : Decidable (v.SameInfinity w) :=
  inferInstanceAs (Decidable (_ ∧ _))

theorem not_sameInfinity_number {x y : Float} (h : ¬ (number x).SameInfinity (number y)) :
    ¬ (x.isInf = true ∧ orderNumbers x y = .eq) :=
  fun hxy => h ⟨hxy.1, congrArg some hxy.2⟩

/-- What the comparison tells apart, the order tells apart in the same direction. -/
theorem compare?_eq_or {v w : Value} (hk : v.kind = w.kind) (h : ¬ v.SameInfinity w) :
    v.compare? w = some .eq ∨ v.compare? w = v.order? w := by
  cases v with
  | number x =>
    cases w with
    | number y =>
      exact (compareNumbers_eq_or (not_sameInfinity_number h)).imp (congrArg some) (congrArg some)
    | text t => cases hk
  | text s =>
    cases w with
    | number y => cases hk
    | text t => exact .inr rfl

theorem compare?_swap {v w : Value} (h : ¬ v.SameInfinity w) :
    w.compare? v = (v.compare? w).map Ordering.swap := by
  cases v with
  | number x =>
    cases w with
    | number y => exact congrArg some (compareNumbers_swap (not_sameInfinity_number h))
    | text t => rfl
  | text s =>
    cases w with
    | number y => rfl
    | text t => exact congrArg some (@Std.OrientedCmp.eq_swap _ compareTexts _ t s)

theorem compare?_of_sameInfinity {v w : Value} (h : v.SameInfinity w) :
    v.compare? w = some .gt := by
  obtain ⟨hv, hvw⟩ := h
  cases v with
  | text s => cases hv
  | number x =>
    cases w with
    | text t => cases hvw
    | number y => exact congrArg some (compareNumbers_of_infinite hv (Option.some.inj hvw))

theorem order?_self (v : Value) : v.order? v = some .eq := by
  rw [order?_of_kind rfl, @Std.ReflCmp.compare_self _ Value.order]

theorem order?_swap (v w : Value) : w.order? v = (v.order? w).map Ordering.swap := by
  by_cases hk : v.kind = w.kind
  · rw [order?_of_kind hk, order?_of_kind hk.symm, Option.map_some]
    exact congrArg some Std.OrientedCmp.eq_swap
  · cases v <;> cases w <;> first | exact absurd rfl hk | rfl

theorem SameInfinity.symm {v w : Value} (h : v.SameInfinity w) : w.SameInfinity v := by
  have hwv : w.order? v = some .eq := by
    rw [order?_swap, h.2]
    rfl
  refine ⟨?_, hwv⟩
  cases hw : w.isInfinite with
  | true => rfl
  | false =>
    have hvw := compare?_symm (compare?_of_order? hwv hw)
    rw [compare?_of_sameInfinity h] at hvw
    cases hvw

theorem kind_eq_of_order? {v w : Value} {o : Ordering} (h : v.order? w = some o) :
    v.kind = w.kind := by
  cases v <;> cases w <;> first | rfl | cases h

theorem order?_trans {u v w : Value} {o o' : Ordering} (huv : u.order? v = some o)
    (hvw : v.order? w = some o') (ho : o.isLE) (ho' : o'.isLE) :
    ∃ o'', u.order? w = some o'' ∧ o''.isLE := by
  have hk := kind_eq_of_order? huv
  have hk' := kind_eq_of_order? hvw
  rw [order?_of_kind hk] at huv
  rw [order?_of_kind hk'] at hvw
  obtain rfl := Option.some.inj huv
  obtain rfl := Option.some.inj hvw
  exact ⟨u.order w, order?_of_kind (hk.trans hk'), Std.TransCmp.isLE_trans ho ho'⟩

theorem same_iff {v w : Value} : v.same w = true ↔ v.compare? w = some .eq := by
  rw [same, beq_iff_eq]

/-- Equality of values is symmetric, also with infinities and across kinds. -/
theorem same_comm (v w : Value) : v.same w = w.same v := by
  rw [Bool.eq_iff_iff, same_iff, same_iff]
  exact ⟨compare?_symm, compare?_symm⟩

theorem same_self {v : Value} (h : v.isInfinite = false) : v.same v = true :=
  same_iff.mpr (compare?_of_order? v.order?_self h)

/-- The comparison brings together what the order tells apart, and can be turned around, unless both
values are one infinity. -/
theorem coarsens_iff {v w : Value} (hk : v.kind = w.kind) :
    (v.compare? w = some .eq ∨ v.compare? w = v.order? w) ∧
        w.compare? v = (v.compare? w).map Ordering.swap ↔ ¬ v.SameInfinity w := by
  constructor
  · rintro ⟨hcoarse, -⟩ hinf
    rw [compare?_of_sameInfinity hinf, hinf.2] at hcoarse
    rcases hcoarse with h | h <;> cases h
  · intro h
    exact ⟨compare?_eq_or hk h, compare?_swap h⟩

theorem compare?_self_iff {v : Value} :
    v.compare? v = some .eq ∧ v.same v = true ↔ v.isInfinite = false := by
  constructor
  · rintro ⟨hself, -⟩
    refine Bool.eq_false_iff.mpr fun hinf => ?_
    rw [compare?_of_sameInfinity ⟨hinf, v.order?_self⟩] at hself
    cases hself
  · intro h
    exact ⟨compare?_of_order? v.order?_self h, same_self h⟩

theorem order?_missing {x : Float} (h : x.isNaN = false) :
    missing.order? (.number x) = some .lt := by
  have hmissing : Number.missing.isNaN = true := Function.isMissing_missing
  have hlt : orderNumbers Number.missing x = .lt := by
    simp only [orderNumbers, hmissing, h, if_true, Bool.false_eq_true, if_false]
  exact congrArg some hlt

end Value

/-- The comparison is a coarsening of the order, except for an infinity and itself: values of one
kind compare equal or as they are ordered, and turned around the other way around, unless they are
one infinity, which compares greater both ways. So equality of values is reflexive on all other
values; it is symmetric on all. The order is a total preorder of each kind, and the missing number
is below all others. -/
theorem compare_coarsens_order {v w : Value} (hk : v.kind = w.kind) :
    ((v.compare? w = some .eq ∨ v.compare? w = v.order? w) ∧
        w.compare? v = (v.compare? w).map Ordering.swap ↔ ¬ v.SameInfinity w) ∧
    (v.SameInfinity w → v.compare? w = some .gt ∧ w.compare? v = some .gt) ∧
    (v.compare? v = some .eq ∧ v.same v = true ↔ v.isInfinite = false) ∧
    v.same w = w.same v ∧
    (v.order? w).isSome = true ∧
    v.order? v = some .eq ∧
    w.order? v = (v.order? w).map Ordering.swap ∧
    (∀ u : Value, ∀ o o' : Ordering, v.order? w = some o → w.order? u = some o' → o.isLE →
      o'.isLE → ∃ o'', v.order? u = some o'' ∧ o''.isLE) ∧
    ∀ x : Float, v = .number x → x.isNaN = false → Value.missing.order? v = some .lt := by
  have hlisted : (v.order? w).isSome = true := by rw [Value.order?_of_kind hk, Option.isSome_some]
  refine ⟨Value.coarsens_iff hk, ?_, Value.compare?_self_iff, v.same_comm w, hlisted, v.order?_self,
    v.order?_swap w, ?_, ?_⟩
  · exact fun h => ⟨Value.compare?_of_sameInfinity h, Value.compare?_of_sameInfinity h.symm⟩
  · exact fun u o o' hvw hwu ho ho' => Value.order?_trans hvw hwu ho ho'
  · rintro x rfl hx
    exact Value.order?_missing hx

/-- A small number and a greater one within the tolerance, which is below a third one. -/
theorem compare_coarsens_order_nearby :
    (Value.number 0.0).kind = (Value.number 5e-8).kind ∧
      ¬ (Value.number 0.0).SameInfinity (.number 5e-8) ∧
      (Value.number 0.0).isInfinite = false ∧
      ((Value.number 0.0).compare? (.number 5e-8) = some .eq ∨
        (Value.number 0.0).compare? (.number 5e-8) = (Value.number 0.0).order? (.number 5e-8)) ∧
      (Value.number 5e-8).compare? (.number 0.0) =
        ((Value.number 0.0).compare? (.number 5e-8)).map Ordering.swap ∧
      (Value.number 0.0).same (.number 0.0) = true ∧
      (∃ o, (Value.number 0.0).order? (.number 1.0) = some o ∧ o.isLE) ∧
      Value.missing.order? (.number 0.0) = some .lt := by
  have hk : (Value.number 0.0).kind = (Value.number 5e-8).kind := rfl
  obtain ⟨hcoarse, -, hself, -, -, -, -, htrans, hmissing⟩ := compare_coarsens_order hk
  have hne : ¬ (Value.number 0.0).SameInfinity (.number 5e-8) := by decide +kernel
  have hfin : (Value.number 0.0).isInfinite = false := by decide +kernel
  obtain ⟨hor, hswap⟩ := hcoarse.mpr hne
  refine ⟨hk, hne, hfin, hor, hswap, (hself.mpr hfin).2, ?_, ?_⟩
  · exact htrans (.number 1.0) .lt .lt (by decide +kernel) (by decide +kernel) rfl rfl
  · exact hmissing 0.0 rfl (by decide +kernel)

/-- An infinity is neither equal to itself nor ordered the other way around when it is compared the
other way around. -/
theorem infinity_exceeds_itself :
    ¬ ∀ v w : Value, v.kind = w.kind →
      (v.compare? w = some .eq ∨ v.compare? w = v.order? w) ∧
        w.compare? v = (v.compare? w).map Ordering.swap ∧ v.compare? v = some .eq := by
  intro h
  obtain ⟨-, -, hself⟩ := h (.number (1.0 / 0.0)) (.number (1.0 / 0.0)) rfl
  have hgt : (Value.number (1.0 / 0.0)).compare? (.number (1.0 / 0.0)) = some .gt := by
    decide +kernel
  rw [hgt] at hself
  cases hself

end StepLang
