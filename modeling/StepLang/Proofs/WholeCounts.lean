import Mathlib.Data.ENat.Lattice
import StepLang.Proofs.WholeParts

/-! # Whole parts as counts

A position or a length is a number, and what counts is its whole part, however large the number is.
The code takes it up to a greatest count, which no text is as long as.
-/

namespace StepLang

open Float.Model UnpackedFloat

/-- The whole part of a finite number: its units without those that make up the fraction. -/
def whole (u : UnpackedFloat) : Int :=
  (units u).tdiv (2 ^ 1074)

/-- The whole part of a number as a count: it is zero below one and for the missing number, and the
infinite number has no bound. -/
def wholeCount (x : Float) : ℕ∞ :=
  match x.toModel.unpack with
  | .infinity .positive => ⊤
  | u => (whole u).toNat

/-! ### Parts -/

/-- A mantissa in units of `2 ^ -k`, divided by `2 ^ k`: the digits before the point are left. -/
theorem shiftLeft_shiftRight_point (m k : Nat) {e : Int} (he : -k ≤ e) :
    m <<< (e + k).toNat >>> k = if 0 ≤ e then m <<< e.natAbs else m >>> e.natAbs := by
  split
  · rename_i h
    rw [show (e + k).toNat = e.natAbs + k by omega, Nat.shiftLeft_add, Nat.shiftLeft_shiftRight]
  · rename_i h
    obtain ⟨j, rfl⟩ : ∃ j, k = j + e.natAbs := ⟨(e + k).toNat, by omega⟩
    rw [show (e + (j + e.natAbs : Nat)).toNat = j by omega, Nat.shiftRight_add,
      Nat.shiftLeft_shiftRight]

theorem tdiv_two_pow (n k : Nat) : (n : Int).tdiv (2 ^ k) = (n >>> k : Nat) := by
  rw [Nat.shiftRight_eq_div_pow, Int.ofNat_tdiv, Int.natCast_pow, Nat.cast_ofNat]

theorem whole_natCast {u : UnpackedFloat} {n : Nat} (h : units u = n) :
    whole u = (n >>> 1074 : Nat) := by
  rw [whole, h, tdiv_two_pow]

theorem whole_neg (u : UnpackedFloat) : whole u.neg = -whole u := by
  rw [whole, whole, units_neg, Int.neg_tdiv]

theorem whole_of_units_zero {u : UnpackedFloat} (h : units u = 0) : whole u = 0 := by
  rw [whole, h, Int.zero_tdiv]

theorem whole_finite {m : Nat} {e : Int} {hm : 0 < m} (he : -1074 ≤ e) (s : Sign) :
    whole (.finite s m e hm) =
      s.apply (if 0 ≤ e then m <<< e.natAbs else m >>> e.natAbs : Nat) := by
  have hpositive : whole (.finite .positive m e hm) =
      (if 0 ≤ e then m <<< e.natAbs else m >>> e.natAbs : Nat) := by
    rw [whole_natCast (cast_shiftLeft m _).symm, ← shiftLeft_shiftRight_point m 1074 he]
    rfl
  cases s with
  | positive => exact hpositive
  | negative =>
    rw [← hpositive]
    exact whole_neg (.finite .positive m e hm)

/-- Taken as an integer of a range, a finite number gives the integer nearest to its whole part. -/
theorem clamp_of_isFinite {x : Float} (h : x.toModel.unpack.isFinite) (b : Number.Bounds) :
    Number.clamp b x = b.nearest (whole x.toModel.unpack) := by
  have hpack := unpack_packable x.toModel
  unfold Number.clamp
  rw [parts_eq_unpackedParts]
  generalize x.toModel.unpack = u at h hpack ⊢
  cases u with
  | notANumber => cases h
  | infinity s => cases h
  | zero s =>
    rw [whole_of_units_zero rfl]
    cases s <;> rfl
  | finite s m e hm =>
    rw [whole_finite hpack.1.le_exponent]
    cases s <;> rfl

/-- Taken as a count, a number gives its whole part, up to the greatest count. -/
theorem toCount_eq_min (x : Float) :
    (Number.toCount x : ℕ∞) = min (wholeCount x) (0xffffffffffffffff : Nat) := by
  have hfinite := clamp_of_isFinite (x := x)
  have hparts := parts_eq_unpackedParts x
  unfold wholeCount Number.toCount
  generalize x.toModel.unpack = u at hfinite hparts ⊢
  have hcount (i : Int) : ((Number.Bounds.count64.nearest i).toNat : ℕ∞) =
      min (i.toNat : ℕ∞) (0xffffffffffffffff : Nat) := by
    rw [← Monotone.map_min (Nat.mono_cast (α := ℕ∞))]
    refine congrArg _ ?_
    change (max (0 : Int) (min 0xffffffffffffffff i)).toNat = _
    omega
  have hzero {u : UnpackedFloat} (hu : units u = 0) :
      ((Number.Bounds.count64.nearest 0).toNat : ℕ∞) =
        min ((whole u).toNat : ℕ∞) (0xffffffffffffffff : Nat) := by
    rw [hcount, whole_of_units_zero hu]
  cases u with
  | notANumber =>
    rw [Number.clamp, hparts]
    exact hzero rfl
  | infinity s =>
    rw [Number.clamp, hparts]
    cases s with
    | positive => exact (min_eq_right le_top).symm
    | negative => exact hzero rfl
  | _ =>
    rw [hfinite rfl]
    exact hcount _

theorem toCount_le (x : Float) : Number.toCount x ≤ wholeCount x :=
  (toCount_eq_min x).trans_le (min_le_left _ _)

theorem lt_toCount_iff {n : Nat} (hn : n < 0xffffffffffffffff) (x : Float) :
    n < Number.toCount x ↔ n < wholeCount x := by
  rw [← Nat.cast_lt (α := ℕ∞), toCount_eq_min, lt_min_iff, Nat.cast_lt]
  exact and_iff_left hn

theorem wholeCount_eq_toCount {n : Nat} (hn : n < 0xffffffffffffffff) {x : Float}
    (h : Number.toCount x ≤ n) : wholeCount x = Number.toCount x := by
  rcases le_total (wholeCount x) (0xffffffffffffffff : Nat) with hle | hle
  · rw [toCount_eq_min, min_eq_left hle]
  · have hcap := toCount_eq_min x
    rw [min_eq_right hle, Nat.cast_inj] at hcap
    omega

theorem Denotes.wholeCount {x : Float} {n : Nat} (h : Denotes x n) : wholeCount x = n := by
  have hwhole : whole x.toModel.unpack = n := by
    rw [whole_natCast (h.units_eq.trans (cast_shiftLeft n 1074).symm), Nat.shiftLeft_shiftRight]
  have hfinite := h.finite
  unfold StepLang.wholeCount
  generalize x.toModel.unpack = u at hwhole hfinite
  cases u with
  | infinity s => cases hfinite
  | notANumber => cases hfinite
  | _ => exact congrArg (fun i : Int => (i.toNat : ℕ∞)) hwhole

/-! ### The order -/

theorem compare_notANumber (u : UnpackedFloat) : u.compare .notANumber = none := by
  cases u <;> rfl

theorem compare_infinity {u : UnpackedFloat} (h : u.isFinite) (s : Sign) :
    u.compare (.infinity s) = some (match s with | .positive => .lt | .negative => .gt) := by
  cases u with
  | notANumber => cases h
  | infinity => cases h
  | _ => cases s <;> rfl

theorem le_shiftRight_iff {n a k : Nat} : n ≤ a >>> k ↔ n <<< k ≤ a := by
  rw [Nat.shiftRight_eq_div_pow, Nat.shiftLeft_eq, Nat.le_div_iff_mul_le (Nat.two_pow_pos k)]

theorem natAbs_whole (u : UnpackedFloat) : (whole u).natAbs = (units u).natAbs >>> 1074 := by
  rcases Int.natAbs_eq (units u) with h | h
  · rw [whole_natCast h, Int.natAbs_natCast]
  · have hneg : units u.neg = (units u).natAbs := by
      rw [units_neg]
      omega
    rw [← Int.natAbs_neg, ← whole_neg, whole_natCast hneg, Int.natAbs_natCast]

theorem shiftRight_le {a n k : Nat} (h : a ≤ n <<< k) : a >>> k ≤ n := by
  rw [← Nat.shiftLeft_shiftRight n k, Nat.shiftRight_eq_div_pow, Nat.shiftRight_eq_div_pow]
  exact Nat.div_le_div_right h

/-- A number that is not beyond an integer in magnitude is finite, and so is its whole part within
it. -/
theorem Denotes.natAbs_whole_le {x y : Float} {n : Nat} (hy : Denotes y n) (hx : x.isNaN = false)
    (h : ¬ y < x.abs) :
    x.toModel.unpack.isFinite ∧ (whole x.toModel.unpack).natAbs ≤ n := by
  have hpack := unpack_packable y.toModel
  have hpack' := unpack_packable x.abs.toModel
  have hne := hy.ne_notANumber
  have hfinite := hy.finite
  have hunits := hy.units_eq
  have hx' : x.toModel.unpack.isNaN = false := hx
  rw [lt_iff_compare, unpack_abs] at h
  rw [unpack_abs] at hpack'
  generalize y.toModel.unpack = v at h hpack hne hfinite hunits
  generalize x.toModel.unpack = u at h hpack' hx' ⊢
  have hwhole (hu : u.abs.isFinite) : (whole u).natAbs ≤ n := by
    have hu' : u.abs ≠ .notANumber := by
      intro hnan
      rw [hnan] at hu
      cases hu
    rw [compare_eq_compareRanks hne hu', compareRanks_eq_compare_units hfinite hu hpack hpack',
      Option.some.injEq, Int.compare_eq_lt, not_lt, hunits, units_abs, ← cast_shiftLeft,
      Nat.cast_le] at h
    rw [natAbs_whole]
    exact shiftRight_le h
  cases u with
  | notANumber => cases hx'
  | infinity s => exact absurd (compare_infinity hfinite .positive) h
  | _ => exact ⟨rfl, hwhole rfl⟩

theorem le_whole_iff {u : UnpackedFloat} {n : Nat} (hn : 0 < n) :
    n ≤ (whole u).toNat ↔ (n : Int) * 2 ^ 1074 ≤ units u := by
  have hpos : 0 < n <<< 1074 := Nat.pos_of_ne_zero fun h =>
    hn.ne' (Nat.shiftLeft_eq_zero_iff.mp h)
  rw [← cast_shiftLeft]
  rcases le_total 0 (units u) with h | h
  · obtain ⟨k, hk⟩ := Int.eq_ofNat_of_zero_le h
    rw [whole_natCast hk, hk, Int.toNat_natCast, le_shiftRight_iff, Nat.cast_le]
  · obtain ⟨k, hk⟩ := Int.eq_ofNat_of_zero_le (neg_nonneg.mpr h)
    have hwhole : whole u = -(k >>> 1074 : Nat) := by
      rw [← whole_natCast (units_neg u ▸ hk), whole_neg, neg_neg]
    rw [hwhole]
    generalize n <<< 1074 = d at hpos
    omega

/-- The integers from one on that a number reaches are those that its whole part reaches. -/
theorem Denotes.le_iff_wholeCount {x y : Float} {n : Nat} (hy : Denotes y n) (hn : 0 < n) :
    y ≤ x ↔ n ≤ StepLang.wholeCount x := by
  have hfinite := hy.finite
  have hunits := hy.units_eq
  have hpack := unpack_packable y.toModel
  have hpack' := unpack_packable x.toModel
  rw [le_iff_compare]
  unfold StepLang.wholeCount
  generalize y.toModel.unpack = v at hfinite hunits hpack ⊢
  generalize x.toModel.unpack = u at hpack' ⊢
  have hnone {u : UnpackedFloat} (hle : (v.compare u).any (·.isLE) = false) (hu : units u = 0) :
      (v.compare u).any (·.isLE) = true ↔ (n : ℕ∞) ≤ (whole u).toNat := by
    rw [hle, whole_of_units_zero hu, Nat.cast_le]
    exact iff_of_false Bool.false_ne_true hn.not_ge
  have hwhole (hu : u.isFinite) :
      (v.compare u).any (·.isLE) = true ↔ (n : ℕ∞) ≤ (whole u).toNat := by
    have hv : v ≠ .notANumber := by
      rintro rfl
      cases hfinite
    have hu' : u ≠ .notANumber := by
      rintro rfl
      cases hu
    rw [compare_eq_compareRanks hv hu', compareRanks_eq_compare_units hfinite hu hpack hpack',
      Option.any_some, Int.isLE_compare, hunits, Nat.cast_le, le_whole_iff hn]
  cases u with
  | notANumber => exact hnone (by rw [compare_notANumber]; rfl) rfl
  | infinity s =>
    cases s with
    | positive =>
      rw [compare_infinity hfinite]
      exact iff_of_true rfl le_top
    | negative => exact hnone (by rw [compare_infinity hfinite]; rfl) rfl
  | _ => exact hwhole rfl

/-- A number that is there is reached by another one unless that is missing or lies below. -/
theorem isNaN_or_lt_iff {x y : Float} (hy : y.isNaN = false) :
    (x.isNaN = true ∨ x < y) ↔ ¬ y ≤ x := by
  have hx : x.isNaN = x.toModel.unpack.isNaN := rfl
  have hy' : y.isNaN = y.toModel.unpack.isNaN := rfl
  rw [lt_iff_compare, le_iff_compare, hx]
  rw [hy'] at hy
  generalize x.toModel.unpack = u, y.toModel.unpack = v at hy ⊢
  have hv : v ≠ .notANumber := by
    rintro rfl
    cases hy
  by_cases hu : u = .notANumber
  · subst hu
    rw [compare_notANumber]
    exact iff_of_true (.inl rfl) Bool.false_ne_true
  · rw [isNaN_eq_false hu, compare_eq_compareRanks hu hv, compare_eq_compareRanks hv hu,
      @Std.OrientedCmp.eq_swap _ compareRanks _ (numberRank v)]
    cases compareRanks (numberRank u) (numberRank v) <;> decide

end StepLang
