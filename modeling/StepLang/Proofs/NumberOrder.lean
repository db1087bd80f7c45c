import StepLang.Value

/-! # The order of numbers

The order by which numbers are sorted is the order of triples of integers, so it is a total order
up to the sign of zero, with infinite and missing numbers in it. Numbers that are equal in this
order also compare equal within the tolerance, unless they are infinite.
-/

namespace StepLang

open Float.Model

/-- The class of a number, from the missing number up to the positive infinity, its exponent and its
mantissa; the last two are turned around for negative numbers. -/
def numberRank : UnpackedFloat → Int × Int × Int
  | .notANumber => (-3, 0, 0)
  | .infinity .negative => (-2, 0, 0)
  | .finite .negative m e _ => (-1, -e, -m)
  | .zero _ => (0, 0, 0)
  | .finite .positive m e _ => (1, e, m)
  | .infinity .positive => (2, 0, 0)

def compareRanks : Int × Int × Int → Int × Int × Int → Ordering :=
  compareLex (compareOn (·.1)) (compareLex (compareOn (·.2.1)) (compareOn (·.2.2)))

instance : Std.TransCmp compareRanks := by
  unfold compareRanks
  infer_instance

theorem eq_of_compareRanks {a b : Int × Int × Int} (h : compareRanks a b = .eq) : a = b := by
  simp only [compareRanks, compareLex_eq_eq, compareOn, Std.LawfulEqOrd.compare_eq_iff_eq] at h
  exact Prod.ext h.1 (Prod.ext h.2.1 h.2.2)

theorem compare_neg_neg (a b : Int) : compare (-a) (-b) = (compare a b).swap := by
  rcases Int.lt_trichotomy a b with h | rfl | h
  · rw [Int.compare_eq_lt.mpr h, Int.compare_eq_gt.mpr (Int.neg_lt_neg h)]
    rfl
  · simp
  · rw [Int.compare_eq_gt.mpr h, Int.compare_eq_lt.mpr (Int.neg_lt_neg h)]
    rfl

theorem compare_cast (m n : Nat) : compare (m : Int) n = compare m n := by
  rcases Nat.lt_trichotomy m n with h | rfl | h
  · rw [Nat.compare_eq_lt.mpr h, Int.compare_eq_lt.mpr (Int.ofNat_lt.mpr h)]
  · simp
  · rw [Nat.compare_eq_gt.mpr h, Int.compare_eq_gt.mpr (Int.ofNat_lt.mpr h)]

theorem compare_eq_compareRanks {u v : UnpackedFloat} (hu : u ≠ .notANumber)
    (hv : v ≠ .notANumber) : u.compare v = some (compareRanks (numberRank u) (numberRank v)) := by
  rcases u with (_ | _) | _ | (_ | _) | ⟨(_ | _), m, e, _⟩ <;>
    rcases v with (_ | _) | _ | (_ | _) | ⟨(_ | _), n, f, _⟩ <;>
    first
    | contradiction
    | rfl
    | skip
  -- the classes decide unless both numbers are finite, not zero and of one sign
  case finite.negative.finite.negative =>
    change some ((compare e f).then (compare m n)).swap =
      some ((compare (-e) (-f)).then (compare (-(m : Int)) (-n)))
    rw [compare_neg_neg, compare_neg_neg, compare_cast]
    cases compare e f <;> rfl
  case finite.positive.finite.positive =>
    change some ((compare e f).then (compare m n)) = some ((compare e f).then (compare (m : Int) n))
    rw [compare_cast]

theorem lt_iff_compare (x y : Float) :
    x < y ↔ x.toModel.unpack.compare y.toModel.unpack = some .lt := by
  change decide (x.toModel < y.toModel) = true ↔ _
  rw [decide_eq_true_eq]
  change (x.toModel.unpack.compare y.toModel.unpack == some .lt) = true ↔ _
  exact beq_iff_eq

theorem le_iff_compare (x y : Float) :
    x ≤ y ↔ (x.toModel.unpack.compare y.toModel.unpack).any (·.isLE) = true := by
  change decide (x.toModel ≤ y.toModel) = true ↔ _
  rw [decide_eq_true_eq]
  exact Iff.rfl

theorem ne_notANumber_of_compare {u v : UnpackedFloat} {o : Ordering} (h : u.compare v = some o) :
    u ≠ .notANumber ∧ v ≠ .notANumber := by
  constructor
  · rintro rfl
    cases h
  · rintro rfl
    cases u <;> cases h

theorem not_lt_of_le {x y : Float} (h : x ≤ y) : ¬ y < x := by
  rw [le_iff_compare] at h
  rw [lt_iff_compare]
  generalize x.toModel.unpack = u, y.toModel.unpack = v at h ⊢
  intro hlt
  obtain ⟨hv, hu⟩ := ne_notANumber_of_compare hlt
  rw [compare_eq_compareRanks hv hu, @Std.OrientedCmp.eq_swap _ compareRanks] at hlt
  rw [compare_eq_compareRanks hu hv] at h
  cases hc : compareRanks (numberRank u) (numberRank v) <;> simp [hc] at h hlt

theorem isNaN_eq_false {u : UnpackedFloat} (h : u ≠ .notANumber) : u.isNaN = false := by
  cases u <;> first | contradiction | rfl

theorem orderNumbers_eq_compareRanks (x y : Float) : orderNumbers x y =
    compareRanks (numberRank x.toModel.unpack) (numberRank y.toModel.unpack) := by
  have hx : x.isNaN = x.toModel.unpack.isNaN := rfl
  have hy : y.isNaN = y.toModel.unpack.isNaN := rfl
  simp only [orderNumbers, hx, hy, lt_iff_compare]
  generalize x.toModel.unpack = u, y.toModel.unpack = v
  by_cases hu : u = .notANumber
  · subst hu
    rcases v with (_ | _) | _ | (_ | _) | ⟨(_ | _), n, f, _⟩ <;> rfl
  by_cases hv : v = .notANumber
  · subst hv
    rcases u with (_ | _) | _ | (_ | _) | ⟨(_ | _), n, f, _⟩ <;> first | contradiction | rfl
  rw [isNaN_eq_false hu, isNaN_eq_false hv, compare_eq_compareRanks hu hv,
    compare_eq_compareRanks hv hu, @Std.OrientedCmp.eq_swap _ compareRanks _ (numberRank v)]
  cases compareRanks (numberRank u) (numberRank v) <;> rfl

instance : Std.TransCmp orderNumbers where
  eq_swap {x y} := by
    rw [orderNumbers_eq_compareRanks, orderNumbers_eq_compareRanks]
    exact Std.OrientedCmp.eq_swap
  isLE_trans {x y z} hxy hyz := by
    rw [orderNumbers_eq_compareRanks] at hxy hyz ⊢
    exact Std.TransCmp.isLE_trans hxy hyz

/-- The numbers that are equal by the rules of arithmetic are those that the order does not tell
apart. -/
theorem orderNumbers_of_beq {x y : Float} (h : (x == y) = true) : orderNumbers x y = .eq := by
  have hc : x.toModel.unpack.compare y.toModel.unpack = some .eq := by
    change (x.toModel.unpack.compare y.toModel.unpack == some .eq) = true at h
    exact beq_iff_eq.mp h
  rw [orderNumbers_eq_compareRanks]
  generalize x.toModel.unpack = u, y.toModel.unpack = v at hc ⊢
  obtain ⟨hu, hv⟩ := ne_notANumber_of_compare hc
  rw [compare_eq_compareRanks hu hv] at hc
  exact Option.some.inj hc

theorem eq_or_zero_of_numberRank {u v : UnpackedFloat} (h : numberRank u = numberRank v) :
    u = v ∨ ∃ sign sign', u = .zero sign ∧ v = .zero sign' := by
  rcases u with (_ | _) | _ | _ | ⟨(_ | _), m, e, _⟩ <;>
    rcases v with (_ | _) | _ | _ | ⟨(_ | _), n, f, _⟩ <;>
    first
    | exact .inl rfl
    | exact .inr ⟨_, _, rfl, rfl⟩
    | exact absurd (congrArg Prod.fst h) (of_decide_eq_false rfl)
    | skip
  -- the classes differ unless both numbers are finite, not zero and of one sign
  case finite.negative.finite.negative =>
    have he : -e = -f := congrArg (·.2.1) h
    have hm : -(m : Int) = -n := congrArg (·.2.2) h
    obtain rfl : e = f := by omega
    obtain rfl : m = n := by omega
    exact .inl rfl
  case finite.positive.finite.positive =>
    have he : e = f := congrArg (·.2.1) h
    have hm : (m : Int) = n := congrArg (·.2.2) h
    subst he
    obtain rfl : m = n := by omega
    exact .inl rfl

theorem sub_finite_self (sign : UnpackedFloat.Sign) (m : Nat) (e : Int) (hm : 0 < m) :
    UnpackedFloat.sub .binary64 (.finite sign m e hm) (.finite sign m e hm) = .zero .positive := by
  change UnpackedFloat.normalize .binary64 (sign.apply _ - sign.apply _) (min e e) .positive = _
  rw [Int.sub_self]
  rfl

/-- The difference of equal numbers is a zero unless they are infinite or missing. -/
theorem sub_eq_zero_of_orderNumbers {x y : Float} (h : orderNumbers x y = .eq)
    (hn : x.isNaN = false) (hi : x.isInf = false) :
    ∃ sign, x - y = .ofModel (.pack (.zero sign)) := by
  rw [orderNumbers_eq_compareRanks] at h
  have hr := eq_or_zero_of_numberRank (eq_of_compareRanks h)
  change x.toModel.unpack.isNaN = false at hn
  change x.toModel.unpack.isInf = false at hi
  suffices ∃ sign, UnpackedFloat.sub .binary64 x.toModel.unpack y.toModel.unpack = .zero sign by
    obtain ⟨sign, hs⟩ := this
    refine ⟨sign, ?_⟩
    change Float.ofModel (.pack (UnpackedFloat.sub .binary64 x.toModel.unpack y.toModel.unpack)) = _
    rw [hs]
  generalize x.toModel.unpack = u, y.toModel.unpack = v at hr hn hi ⊢
  rcases hr with rfl | ⟨sign, sign', rfl, rfl⟩
  · cases u with
    | infinity sign => cases hi
    | notANumber => cases hn
    | zero sign => cases sign <;> exact ⟨_, rfl⟩
    | finite sign m e hm => exact ⟨.positive, sub_finite_self sign m e hm⟩
  · cases sign <;> cases sign' <;> exact ⟨_, rfl⟩

theorem orderNumbers_eq_eq_isNaN {x y : Float} (h : orderNumbers x y = .eq) :
    x.isNaN = y.isNaN := by
  cases hx : x.isNaN <;> cases hy : y.isNaN <;>
    simp only [orderNumbers, hx, hy, Bool.false_eq_true, if_true, if_false, reduceCtorEq] at h ⊢

/-- Numbers that are equal in the order compare equal, unless they are infinite. -/
theorem compareNumbers_of_orderNumbers {x y : Float} (h : orderNumbers x y = .eq)
    (hi : x.isInf = false) : compareNumbers x y = .eq := by
  have hxy := orderNumbers_eq_eq_isNaN h
  cases hx : x.isNaN with
  | true => simp only [compareNumbers, ← hxy, hx, if_true]
  | false =>
    obtain ⟨sign, hs⟩ := sub_eq_zero_of_orderNumbers h hx hi
    have hlt : (x - y).abs < tolerance := by
      rw [hs]
      cases sign <;> decide
    simp only [compareNumbers, ← hxy, hx, Bool.false_eq_true, if_false, if_pos hlt]

/-- Numbers that compare equal are equal in the order, unless they differ by less than the
tolerance. -/
theorem orderNumbers_of_compareNumbers {x y : Float} (h : compareNumbers x y = .eq)
    (hs : x.isNaN ∨ y.isNaN ∨ x == y ∨ tolerance ≤ (x - y).abs) : orderNumbers x y = .eq := by
  cases hx : x.isNaN with
  | true =>
    simp only [compareNumbers, hx, if_true] at h
    simp only [orderNumbers, hx, if_true, h]
  | false =>
    cases hy : y.isNaN with
    | true => simp only [compareNumbers, hx, hy, Bool.false_eq_true, if_true, if_false,
        reduceCtorEq] at h
    | false =>
      simp only [hx, hy, Bool.false_eq_true, false_or] at hs
      rcases hs with hs | hs
      · exact orderNumbers_of_beq hs
      · simp only [compareNumbers, hx, hy, Bool.false_eq_true, if_false,
          if_neg (not_lt_of_le hs)] at h
        split at h <;> cases h

end StepLang
