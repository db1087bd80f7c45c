import Mathlib.Data.Nat.Log
import Mathlib.Tactic.Positivity
import Mathlib.Tactic.Ring
import StepLang.Proofs.NumberOrder
import StepLang.Proofs.NumberPacking

/-! # Differences of numbers

A finite number is a whole multiple of the least positive one. The difference of two numbers is
rounded, and rounding keeps the order of magnitudes, so whether two numbers lie within the tolerance
depends on their exact distance only, and holds of every smaller distance too.
-/

namespace StepLang

open Float.Model UnpackedFloat

/-! ### Rounding to nearest -/

/-- The place of a mantissa with its residual bits among all of them. -/
def extendedRank (em : ExtendedMantissa) : Nat :=
  4 * em.mantissa + 2 * em.roundBit.toNat + em.stickyBit.toNat

theorem extendedRank_shiftRightOne_le {a b : ExtendedMantissa}
    (h : extendedRank a ≤ extendedRank b) :
    extendedRank a.shiftRightOne ≤ extendedRank b.shiftRightOne := by
  obtain ⟨m, r, s⟩ := a
  obtain ⟨n, r', s'⟩ := b
  have hbit (k : Nat) : (k % 2 != 0).toNat = k % 2 := by
    rcases Nat.mod_two_eq_zero_or_one k with hk | hk <;> simp [hk]
  simp only [extendedRank, ExtendedMantissa.shiftRightOne, hbit] at h ⊢
  cases r <;> cases s <;> cases r' <;> cases s' <;> simp only [Bool.toNat_false, Bool.toNat_true,
    Bool.or_false, Bool.or_true] at h ⊢ <;> omega

theorem extendedRank_shiftRight_le {a b : ExtendedMantissa} (h : extendedRank a ≤ extendedRank b)
    (k : Nat) : extendedRank (a >>> k) ≤ extendedRank (b >>> k) := by
  induction k with
  | zero => exact h
  | succ k ih => exact extendedRank_shiftRightOne_le ih

theorem roundedMantissa_le {a b : ExtendedMantissa} (h : extendedRank a ≤ extendedRank b) :
    a.roundedMantissa ≤ b.roundedMantissa := by
  obtain ⟨m, r, s⟩ := a
  obtain ⟨n, r', s'⟩ := b
  simp only [extendedRank] at h
  cases r <;> cases s <;> cases r' <;> cases s' <;>
    simp only [ExtendedMantissa.roundedMantissa, ExtendedMantissa.accuracy,
      Accuracy.roundToNearestEven, Bool.toNat_false, Bool.toNat_true] at h ⊢ <;> omega

theorem mantissa_shiftRight (em : ExtendedMantissa) (k : Nat) :
    (em >>> k).mantissa = em.mantissa / 2 ^ k := by
  induction k with
  | zero => exact (Nat.div_one _).symm
  | succ k ih =>
    change (em >>> k).mantissa / 2 = _
    rw [ih, Nat.div_div_eq_div_mul, Nat.pow_succ]

theorem shiftRight_add (em : ExtendedMantissa) (j k : Nat) : em >>> (j + k) = em >>> j >>> k := by
  induction k with
  | zero => rfl
  | succ k ih => exact congrArg ExtendedMantissa.shiftRightOne ih

theorem shiftRight_shiftLeft (n k : Nat) :
    ExtendedMantissa.ofMantissaAndAccuracy (n <<< k) .exact >>> k =
      ExtendedMantissa.ofMantissaAndAccuracy n .exact := by
  have hone (m : Nat) : (ExtendedMantissa.ofMantissaAndAccuracy (2 * m) .exact).shiftRightOne =
      ExtendedMantissa.ofMantissaAndAccuracy m .exact := by
    change ExtendedMantissa.mk (2 * m / 2) (2 * m % 2 != 0) false = .mk m false false
    simp
  induction k with
  | zero => rfl
  | succ k ih =>
    rw [Nat.add_comm, shiftRight_add, Nat.add_comm, Nat.shiftLeft_succ, ← ih, ← hone (n <<< k)]
    rfl

/-- The mantissa `n` without its last `k` bits, rounded. -/
def roundedShift (n k : Nat) : Nat :=
  (ExtendedMantissa.ofMantissaAndAccuracy n .exact >>> k).roundedMantissa

theorem roundedShift_le {m n : Nat} (h : m ≤ n) (k : Nat) :
    roundedShift m k ≤ roundedShift n k := by
  refine roundedMantissa_le (extendedRank_shiftRight_le ?_ k)
  simp only [extendedRank, ExtendedMantissa.ofMantissaAndAccuracy]
  omega

theorem roundedShift_bounds (n k : Nat) :
    n / 2 ^ k ≤ roundedShift n k ∧ roundedShift n k ≤ n / 2 ^ k + 1 := by
  have hm := mantissa_shiftRight (ExtendedMantissa.ofMantissaAndAccuracy n .exact) k
  change _ = n / 2 ^ k at hm
  unfold roundedShift
  generalize ExtendedMantissa.ofMantissaAndAccuracy n .exact >>> k = em at hm ⊢
  obtain ⟨m, r, s⟩ := em
  simp only at hm
  cases r <;> cases s <;> simp only [ExtendedMantissa.roundedMantissa, ExtendedMantissa.accuracy,
      Accuracy.roundToNearestEven] <;> omega

def excessBits (n : Nat) : Nat := n.log2 - 52

theorem excessBits_le {m n : Nat} (h : m ≤ n) : excessBits m ≤ excessBits n := by
  unfold excessBits
  rw [Nat.log2_eq_log_two, Nat.log2_eq_log_two]
  have := @Nat.log_mono_right 2 m n h
  omega

theorem excessBits_quotient {n : Nat} (hn : 0 < n) : n / 2 ^ excessBits n < 2 ^ 53 ∧
    (0 < excessBits n → 2 ^ 52 ≤ n / 2 ^ excessBits n) := by
  have hlow := Nat.log2_self_le hn.ne'
  have hhigh := @Nat.lt_log2_self n
  unfold excessBits
  generalize n.log2 = l at hlow hhigh
  constructor
  · rw [Nat.div_lt_iff_lt_mul (Nat.two_pow_pos _), ← Nat.pow_add]
    exact lt_of_lt_of_le hhigh (Nat.pow_le_pow_right (by decide) (by omega))
  · intro hl
    rw [Nat.le_div_iff_mul_le (Nat.two_pow_pos _), ← Nat.pow_add]
    exact le_trans (Nat.pow_le_pow_right (by decide) (by omega)) hlow

/-- The mantissa and the exponent of `n` units, rounded. A mantissa that overflows by rounding is
halved. -/
def roundUnits (n : Nat) : Nat × Int :=
  if roundedShift n (excessBits n) = 2 ^ 53 then (2 ^ 52, excessBits n - 1073)
  else (roundedShift n (excessBits n), excessBits n - 1074)

theorem roundedShift_excessBits {n : Nat} (hn : 0 < n) : 0 < roundedShift n (excessBits n) ∧
    roundedShift n (excessBits n) ≤ 2 ^ 53 ∧
    (2 ^ 52 ≤ roundedShift n (excessBits n) ∨ excessBits n = 0) := by
  obtain ⟨hlow, hhigh⟩ := roundedShift_bounds n (excessBits n)
  obtain ⟨hq, hfull⟩ := excessBits_quotient hn
  refine ⟨?_, by omega, ?_⟩
  · rcases Nat.eq_zero_or_pos (excessBits n) with hk | hk
    · rw [hk, Nat.pow_zero, Nat.div_one] at hlow
      rw [hk]
      omega
    · have := hfull hk
      omega
  · rcases Nat.eq_zero_or_pos (excessBits n) with hk | hk
    · exact .inr hk
    · exact .inl ((hfull hk).trans hlow)

theorem roundUnits_parts {n : Nat} (hn : 0 < n) :
    0 < (roundUnits n).1 ∧ RoundedParts (roundUnits n).1 (roundUnits n).2 := by
  obtain ⟨hpos, hle, hfull⟩ := roundedShift_excessBits hn
  unfold roundUnits
  split
  · exact ⟨Nat.two_pow_pos 52, Nat.pow_lt_pow_right (by decide) (by decide), by omega, .inl le_rfl⟩
  · rename_i hr
    refine ⟨hpos, lt_of_le_of_ne hle hr, by omega, ?_⟩
    rcases hfull with hfull | hk
    · exact .inl hfull
    · exact .inr (by simp [hk])

theorem shiftToTargetExponent_eq {n k : Nat} {e : Int}
    (hk : (max (n.log2 + 1 + e - 53) (-1074) - e).toNat = k) :
    shiftToTargetExponent .binary64 n e .exact =
      (ExtendedMantissa.ofMantissaAndAccuracy n .exact >>> k, e + k) := by
  subst hk
  rfl

/-- The mantissa is shifted and rounded, and shifted once more where rounding gave it a bit more. -/
theorem roundWithAccuracy_eq_finite {s : Sign} {n r m : Nat} {e e' f : Int} {a : Accuracy}
    {em em' : ExtendedMantissa} (h : shiftToTargetExponent .binary64 n e a = (em, e'))
    (hr : em.roundedMantissa = r)
    (h' : shiftToTargetExponent .binary64 r e' .exact = (em', f))
    (hm : em'.mantissa = m) (hpos : 0 < m) :
    roundWithAccuracy .binary64 s n e a = .finite s m f hpos := by
  subst hr hm
  rw [roundWithAccuracy, h]
  dsimp only
  rw [h']
  exact dif_neg hpos.ne'

theorem roundWithAccuracy_exact {s : Sign} {n k r : Nat} {e : Int} (hpos : 0 < r)
    (hk : (max (n.log2 + 1 + e - 53) (-1074) - e).toNat = k) (hr : roundedShift n k = r)
    (hle : r ≤ 2 ^ 53) (hmin : -1074 ≤ e + k) : roundWithAccuracy .binary64 s n e .exact =
      if r = 2 ^ 53 then .finite s (2 ^ 52) (e + k + 1) (Nat.two_pow_pos 52)
      else .finite s r (e + k) hpos := by
  have hr' : (ExtendedMantissa.ofMantissaAndAccuracy n .exact >>> k).roundedMantissa = r := hr
  have hfirst := shiftToTargetExponent_eq hk
  by_cases hcarry : r = 2 ^ 53
  · have hlog : Nat.log2 (2 ^ 53) = 53 := Nat.log2_two_pow
    have hone : (max (((2 ^ 53).log2 : Nat) + 1 + (e + k) - 53) (-1074) - (e + k)).toNat = 1 := by
      rw [hlog]
      omega
    rw [if_pos hcarry]
    exact roundWithAccuracy_eq_finite hfirst (hr'.trans hcarry) (shiftToTargetExponent_eq hone)
      (mantissa_shiftRight _ 1) _
  · have hlog : r.log2 < 53 := (Nat.log2_lt hpos.ne').mpr (lt_of_le_of_ne hle hcarry)
    have hzero : (max (r.log2 + 1 + (e + k) - 53) (-1074) - (e + k)).toNat = 0 := by omega
    rw [if_neg hcarry, roundWithAccuracy_eq_finite hfirst hr' (shiftToTargetExponent_eq hzero) rfl
      hpos]
    exact finite_congr rfl (Int.add_zero _)

theorem roundedShift_shiftLeft (n j k : Nat) :
    roundedShift (n <<< (j - k)) (k - j) = roundedShift (n <<< j) k := by
  unfold roundedShift
  rcases Nat.le_total j k with h | h
  · obtain ⟨i, rfl⟩ := Nat.exists_eq_add_of_le h
    rw [Nat.sub_eq_zero_of_le h, Nat.add_sub_cancel_left, Nat.shiftLeft_zero, shiftRight_add,
      shiftRight_shiftLeft]
  · obtain ⟨i, rfl⟩ := Nat.exists_eq_add_of_le' h
    rw [Nat.sub_eq_zero_of_le h, Nat.add_sub_cancel_right, Nat.shiftLeft_add, shiftRight_shiftLeft]
    rfl

theorem log2_shiftLeft {n : Nat} (hn : n ≠ 0) (i : Nat) : (n <<< i).log2 = n.log2 + i := by
  induction i with
  | zero => rfl
  | succ i ih =>
    rw [Nat.shiftLeft_succ, Nat.log2_two_mul (by simpa), ih]
    omega

theorem round_eq_roundWithAccuracy {s : Sign} {n d : Nat} {e : Int}
    (hd : (e - max (n.log2 + 1 + e - 53) (-1074)).toNat = d) :
    round .binary64 s n e = roundWithAccuracy .binary64 s (n <<< d) (e - d) .exact := by
  subst hd
  rfl

/-- Rounding a number depends on its count of units only. -/
theorem round_eq_roundUnits {s : Sign} {n : Nat} (hn : 0 < n) (j : Nat)
    (hpos : 0 < (roundUnits (n <<< j)).1) : round .binary64 s n (j - 1074) =
      .finite s (roundUnits (n <<< j)).1 (roundUnits (n <<< j)).2 hpos := by
  have hlog := log2_shiftLeft hn.ne'
  obtain ⟨hr, hle, -⟩ := roundedShift_excessBits (n := n <<< j) (by simpa)
  have hk : excessBits (n <<< j) = n.log2 + j - 52 := by rw [excessBits, hlog]
  unfold roundUnits at hpos ⊢
  generalize excessBits (n <<< j) = k at hk hr hle hpos ⊢
  have hdown : ((j - 1074 : Int) - max ((n.log2 : Int) + 1 + (j - 1074) - 53) (-1074)).toNat =
      j - k := by
    omega
  have hup : (max (((n <<< (j - k)).log2 : Int) + 1 + (j - 1074 - (j - k : Nat)) - 53) (-1074) -
      (j - 1074 - (j - k : Nat))).toNat = k - j := by
    rw [hlog]
    omega
  have hmin : (-1074 : Int) ≤ j - 1074 - (j - k : Nat) + (k - j : Nat) := by omega
  rw [round_eq_roundWithAccuracy hdown,
    roundWithAccuracy_exact hr hup (roundedShift_shiftLeft n j k) hle hmin]
  have hexp : (j - 1074 : Int) - (j - k : Nat) + (k - j : Nat) = k - 1074 := by omega
  have hcarry : (k - 1074 : Int) + 1 = k - 1073 := by omega
  rw [hexp, hcarry]
  by_cases hfull : roundedShift (n <<< j) k = 2 ^ 53
  · rw [if_pos hfull]
    exact finite_congr (by rw [if_pos hfull]) (by rw [if_pos hfull])
  · rw [if_neg hfull]
    exact finite_congr (by rw [if_neg hfull]) (by rw [if_neg hfull])

theorem roundUnits_shiftLeft {m : Nat} {e : Int} (hm : 0 < m) (h : RoundedParts m e) :
    roundUnits (m <<< (e + 1074).toNat) = (m, e) := by
  obtain ⟨hlt, hmin, hfull⟩ := h
  have hk : excessBits (m <<< (e + 1074).toNat) = (e + 1074).toNat := by
    rw [excessBits, log2_shiftLeft hm.ne']
    have hle := (Nat.log2_lt hm.ne').mpr hlt
    rcases hfull with hfull | rfl
    · have := (Nat.le_log2 hm.ne').mpr hfull
      omega
    · omega
  have hr : roundedShift (m <<< (e + 1074).toNat) (e + 1074).toNat = m := by
    rw [← roundedShift_shiftLeft, Nat.sub_self, Nat.shiftLeft_zero]
    rfl
  rw [roundUnits, hk, hr, if_neg hlt.ne, Int.toNat_of_nonneg (by omega), Int.add_sub_cancel]

/-! ### Distances -/

/-- A finite number as a multiple of the least positive one. -/
def units : UnpackedFloat → Int
  | .finite s m e _ => s.apply m * 2 ^ (e + 1074).toNat
  | _ => 0

/-- The unpacked number is that of a count of units, rounded, with either sign. -/
inductive RoundsTo (d : Int) : UnpackedFloat → Prop
  | zero (s : Sign) : d = 0 → RoundsTo d (.zero s)
  | finite (s : Sign) (hpos : 0 < (roundUnits d.natAbs).1) : d ≠ 0 →
      RoundsTo d (.finite s (roundUnits d.natAbs).1 (roundUnits d.natAbs).2 hpos)

theorem natAbs_apply (s : Sign) (m : Nat) : (s.apply m).natAbs = m := by
  cases s
  · exact Int.natAbs_neg m
  · rfl

theorem roundsTo_roundUnits {s : Sign} {d : Int} {r : Nat × Int} (hd : d ≠ 0)
    (hr : roundUnits d.natAbs = r) (hpos : 0 < r.1) : RoundsTo d (.finite s r.1 r.2 hpos) := by
  subst hr
  exact .finite s hpos hd

theorem roundsTo_finite {s : Sign} {m : Nat} {e d : Int} {hm : 0 < m} (h : RoundedParts m e)
    (hd : d.natAbs = m <<< (e + 1074).toNat) : RoundsTo d (.finite s m e hm) := by
  have hr := roundUnits_shiftLeft hm h
  rw [← hd] at hr
  have hne : d ≠ 0 := by
    rintro rfl
    have : 0 < m <<< (e + 1074).toNat := by simpa
    omega
  exact roundsTo_roundUnits hne hr hm

theorem roundsTo_normalize (d : Int) (j : Nat) (s : Sign) :
    RoundsTo (d * 2 ^ j) (normalize .binary64 d (j - 1074) s) := by
  have habs : (d * 2 ^ j).natAbs = d.natAbs <<< j := by
    rw [Int.natAbs_mul, Int.natAbs_pow, Nat.shiftLeft_eq]
    rfl
  have hround (s' : Sign) (hd : d ≠ 0) :
      RoundsTo (d * 2 ^ j) (round .binary64 s' d.natAbs (j - 1074)) := by
    have hpos : 0 < d.natAbs := Int.natAbs_pos.mpr hd
    have hparts := roundUnits_parts (n := d.natAbs <<< j) (by simpa using hd)
    rw [round_eq_roundUnits hpos j hparts.1]
    exact roundsTo_roundUnits (by simpa using hd) (by rw [habs]) hparts.1
  unfold UnpackedFloat.normalize
  rcases lt_trichotomy d 0 with hd | rfl | hd
  · rw [Int.compare_eq_lt.mpr hd, show (-d).toNat = d.natAbs by omega]
    exact hround .negative hd.ne
  · exact .zero s (by simp)
  · rw [Int.compare_eq_gt.mpr hd, show d.toNat = d.natAbs by omega]
    exact hround .positive hd.ne'

theorem units_finite (s : Sign) (m : Nat) {e f : Int} (hm : 0 < m) (hf : -1074 ≤ f) (hfe : f ≤ e) :
    units (.finite s m e hm) =
      s.apply (m <<< (e - f).toNat : Nat) * 2 ^ (f + 1074).toNat := by
  have hexp : (e + 1074).toNat = (e - f).toNat + (f + 1074).toNat := by omega
  have happly : s.apply (m <<< (e - f).toNat : Nat) = s.apply m * 2 ^ (e - f).toNat := by
    rw [Nat.shiftLeft_eq]
    cases s <;> simp [Sign.apply]
  change s.apply m * 2 ^ (e + 1074).toNat = _
  rw [happly, hexp, pow_add, mul_assoc]

theorem natAbs_units (s : Sign) (m : Nat) (e : Int) (hm : 0 < m) :
    (units (.finite s m e hm)).natAbs = m <<< (e + 1074).toNat := by
  change (s.apply m * 2 ^ (e + 1074).toNat).natAbs = _
  rw [Int.natAbs_mul, natAbs_apply, Int.natAbs_pow, Nat.shiftLeft_eq]
  rfl

/-- The difference of two finite numbers is their exact difference, rounded. -/
theorem roundsTo_sub {u v : UnpackedFloat} (hu : u.isFinite) (hv : v.isFinite)
    (hpu : Packable u) (hpv : Packable v) :
    RoundsTo (units u - units v) (UnpackedFloat.sub .binary64 u v) := by
  cases u with
  | notANumber => cases hu
  | infinity s => cases hu
  | zero s =>
    cases v with
    | notANumber => cases hv
    | infinity s => cases hv
    | zero s' => cases s <;> cases s' <;> exact .zero _ rfl
    | finite s' m e hm =>
      refine roundsTo_finite hpv.1 ?_
      rw [← natAbs_units s' m e hm, ← Int.natAbs_neg]
      exact congrArg Int.natAbs (by rw [Int.neg_sub]; exact Int.sub_zero _)
  | finite s m e hm =>
    cases v with
    | notANumber => cases hv
    | infinity s => cases hv
    | zero s' =>
      refine roundsTo_finite hpu.1 ?_
      rw [← natAbs_units s m e hm]
      exact congrArg Int.natAbs (Int.sub_zero _)
    | finite s' m' e' hm' =>
      -- both are brought to the lesser exponent
      have hmin : -1074 ≤ min e e' := le_min hpu.1.le_exponent hpv.1.le_exponent
      have hexp : (((min e e' + 1074).toNat : Nat) : Int) - 1074 = min e e' := by omega
      have hround := roundsTo_normalize (s.apply (m <<< (e - min e e').toNat : Nat) -
        s'.apply (m' <<< (e' - min e e').toNat : Nat)) (min e e' + 1074).toNat .positive
      rw [units_finite s m hm hmin (min_le_left e e'),
        units_finite s' m' hm' hmin (min_le_right e e'), ← sub_mul]
      rwa [hexp] at hround

/-! ### The tolerance -/

/-- So many units are below the tolerance after rounding. -/
def Near (n : Nat) : Prop :=
  excessBits n < 998 ∨ excessBits n = 998 ∧ roundedShift n 998 < 7555786372591432

theorem near_of_le {m n : Nat} (hle : m ≤ n) (h : Near n) : Near m := by
  have hk := excessBits_le hle
  have hr := roundedShift_le hle 998
  unfold Near at h ⊢
  omega

theorem near_iff_roundUnits (n : Nat) : Near n ↔ (roundUnits n).2 < -76 ∨
    (roundUnits n).2 = -76 ∧ (roundUnits n).1 < 7555786372591432 := by
  unfold Near roundUnits
  by_cases hcarry : roundedShift n (excessBits n) = 2 ^ 53
  · simp only [if_pos hcarry]
    constructor
    · rintro (hk | ⟨hk, hr⟩)
      · omega
      · rw [hk] at hcarry
        omega
    · intro h
      exact .inl (by omega)
  · simp only [if_neg hcarry]
    constructor
    · rintro (hk | ⟨hk, hr⟩)
      · exact .inl (by omega)
      · rw [hk]
        exact .inr ⟨rfl, hr⟩
    · rintro (hk | ⟨hk, hr⟩)
      · exact .inl (by omega)
      · have hk : excessBits n = 998 := by omega
        rw [hk] at hr
        exact .inr ⟨hk, hr⟩

theorem unpack_tolerance : tolerance.toModel.unpack =
    .finite .positive 7555786372591432 (-76) (by decide) :=
  rfl

theorem unpack_abs (x : Float) : x.abs.toModel.unpack = x.toModel.unpack.abs := by
  refine unpack_pack ?_
  have h := unpack_packable x.toModel
  cases hx : x.toModel.unpack with
  | finite s m e hm =>
    rw [hx] at h
    exact h
  | _ => trivial

theorem pack_overflow {s : Sign} {m : Nat} {e : Int} {hm : 0 < m} (he : 972 ≤ e) :
    Float.Model.pack (.finite s m e hm) = Float.Model.pack (.infinity s) := by
  have hbig : 2 ^ 11 ≤ (e + 1023 + 52).toNat + 1 := by omega
  have hpack : UnpackedFloat.pack .binary64 (.finite s m e hm) =
      UnpackedFloat.pack .binary64 (.infinity s) := if_pos hbig
  exact (Float.Model.mk.injEq _ _ _ _).mpr (congrArg UInt64.ofBitVec hpack)

theorem abs_lt_tolerance_iff {x : Float} {d : Int} {u : UnpackedFloat} (hx : x.toModel = .pack u)
    (h : RoundsTo d u) : x.abs < tolerance ↔ Near d.natAbs := by
  rw [lt_iff_compare, unpack_abs, unpack_tolerance, hx]
  cases h with
  | zero s hd =>
    subst hd
    have hu : Packable (.zero s) := trivial
    rw [unpack_pack hu]
    exact iff_of_true rfl (.inl (by decide))
  | finite s hpos hd =>
    rw [near_iff_roundUnits]
    have hparts := (roundUnits_parts (Int.natAbs_pos.mpr hd)).2
    generalize roundUnits d.natAbs = r at hpos hparts ⊢
    obtain ⟨m, e⟩ := r
    rcases Int.lt_or_le 971 e with he | he
    · have hu : Packable (.infinity s) := trivial
      rw [pack_overflow (by omega), unpack_pack hu]
      refine iff_of_false ?_ (by omega)
      exact fun h => nomatch h
    · have hu : Packable (.finite s m e hpos) := ⟨hparts, he⟩
      rw [unpack_pack hu]
      change some ((compare e (-76)).then (compare m 7555786372591432)) = some .lt ↔ _
      rw [Option.some.injEq, Ordering.then_eq_lt, Int.compare_eq_lt, Int.compare_eq_eq,
        Nat.compare_eq_lt]

theorem sub_abs_lt_tolerance_iff (x y : Float) : (x - y).abs < tolerance ↔
    x.toModel.unpack.isFinite ∧ y.toModel.unpack.isFinite ∧
      Near (units x.toModel.unpack - units y.toModel.unpack).natAbs := by
  have hpx := unpack_packable x.toModel
  have hpy := unpack_packable y.toModel
  have hsub : (x - y).toModel =
      .pack (UnpackedFloat.sub .binary64 x.toModel.unpack y.toModel.unpack) := rfl
  generalize x.toModel.unpack = u at hpx hsub ⊢
  generalize y.toModel.unpack = v at hpy hsub ⊢
  by_cases hfin : u.isFinite ∧ v.isFinite
  · rw [abs_lt_tolerance_iff hsub (roundsTo_sub hfin.1 hfin.2 hpx hpy)]
    exact ⟨fun h => ⟨hfin.1, hfin.2, h⟩, fun h => h.2.2⟩
  · refine iff_of_false ?_ fun h => hfin ⟨h.1, h.2.1⟩
    -- the difference is infinite or missing
    have hbig : UnpackedFloat.sub .binary64 u v = .notANumber ∨
        ∃ s, UnpackedFloat.sub .binary64 u v = .infinity s := by
      rcases u with (_ | _) | _ | _ | _ <;> rcases v with (_ | _) | _ | _ | _ <;>
        first
        | exact .inl rfl
        | exact .inr ⟨_, rfl⟩
        | exact absurd ⟨rfl, rfl⟩ hfin
    rw [lt_iff_compare, unpack_abs, unpack_tolerance, hsub]
    obtain hs | ⟨s, hs⟩ := hbig <;> rw [hs, unpack_pack (by exact trivial)] <;>
      exact fun h => nomatch h

/-- Two numbers compare equal if both are missing, or if both are finite and their distance rounds
to less than the tolerance. -/
theorem compareNumbers_eq_eq_iff (x y : Float) : compareNumbers x y = .eq ↔
    x.isNaN ∧ y.isNaN ∨ x.toModel.unpack.isFinite ∧ y.toModel.unpack.isFinite ∧
      Near (units x.toModel.unpack - units y.toModel.unpack).natAbs := by
  have hfin {z : Float} (hz : z.isNaN = true) : z.toModel.unpack.isFinite = false := by
    change z.toModel.unpack.isNaN = true at hz
    generalize z.toModel.unpack = w at hz ⊢
    cases w <;> first | rfl | cases hz
  cases hx : x.isNaN with
  | true => cases hy : y.isNaN <;> simp only [compareNumbers, hx, hy, hfin hx, Bool.false_eq_true,
      if_true, if_false, reduceCtorEq, and_self, and_false, false_and, or_self, true_or]
  | false =>
    cases hy : y.isNaN with
    | true => simp only [compareNumbers, hx, hy, hfin hy, Bool.false_eq_true, if_true, if_false,
        reduceCtorEq, and_false, false_and, or_self]
    | false =>
      rw [← sub_abs_lt_tolerance_iff]
      simp only [compareNumbers, hx, hy, Bool.false_eq_true, if_false, false_and, false_or]
      by_cases h : (x - y).abs < tolerance
      · simp only [if_pos h]
        exact iff_of_true trivial h
      · rw [if_neg h]
        split <;> simp only [reduceCtorEq, h]

theorem compareNumbers_symm {x y : Float} (h : compareNumbers x y = .eq) :
    compareNumbers y x = .eq := by
  rw [compareNumbers_eq_eq_iff] at h ⊢
  rcases h with ⟨hx, hy⟩ | ⟨hx, hy, hn⟩
  · exact .inl ⟨hy, hx⟩
  · refine .inr ⟨hy, hx, ?_⟩
    rwa [← Int.natAbs_neg, Int.neg_sub]

theorem isFinite_iff_numberRank {u : UnpackedFloat} :
    u.isFinite ↔ -1 ≤ (numberRank u).1 ∧ (numberRank u).1 ≤ 1 := by
  rcases u with (_ | _) | _ | (_ | _) | ⟨(_ | _), m, e, _⟩ <;>
    dsimp only [UnpackedFloat.isFinite, numberRank] <;> decide

theorem isNaN_iff_numberRank {x : Float} : x.isNaN ↔ (numberRank x.toModel.unpack).1 ≤ -3 := by
  change x.toModel.unpack.isNaN ↔ _
  rcases x.toModel.unpack with (_ | _) | _ | (_ | _) | ⟨(_ | _), m, e, _⟩ <;>
    dsimp only [numberRank] <;>
    first
    | exact iff_of_true rfl (by decide)
    | exact iff_of_false Bool.false_ne_true (by decide)

theorem le_of_compareRanks {a b : Int × Int × Int} (h : (compareRanks a b).isLE) :
    a.1 < b.1 ∨ a.1 = b.1 ∧ (a.2.1 < b.2.1 ∨ a.2.1 = b.2.1 ∧ a.2.2 ≤ b.2.2) := by
  rw [← Ordering.ne_gt_iff_isLE] at h
  simp only [compareRanks, compareLex, compareOn, Ordering.then_eq_gt, Int.compare_eq_gt,
    Int.compare_eq_eq] at h
  omega

theorem magnitude_le {m n : Nat} {e f : Int} (hm : RoundedParts m e) (hn : RoundedParts n f)
    (h : e < f ∨ e = f ∧ m ≤ n) :
    (m : Int) * 2 ^ (e + 1074).toNat ≤ n * 2 ^ (f + 1074).toNat := by
  have hlt := hm.lt_mantissa
  have he := hm.le_exponent
  suffices m * 2 ^ (e + 1074).toNat ≤ n * 2 ^ (f + 1074).toNat by exact_mod_cast this
  rcases h with h | ⟨rfl, h⟩
  · -- a number with the greater exponent has a full mantissa
    have hfull : 2 ^ 52 ≤ n := hn.full.resolve_right (by omega)
    have hexp : (f + 1074).toNat = (f - e - 1).toNat + 1 + (e + 1074).toNat := by omega
    calc m * 2 ^ (e + 1074).toNat
      _ ≤ n * 2 * 2 ^ (e + 1074).toNat := Nat.mul_le_mul_right _ (by omega)
      _ ≤ n * (2 ^ (f - e - 1).toNat * 2) * 2 ^ (e + 1074).toNat := by
        gcongr
        exact Nat.le_mul_of_pos_left 2 (Nat.two_pow_pos _)
      _ = n * 2 ^ (f + 1074).toNat := by rw [hexp, pow_add, pow_succ, mul_assoc]
  · exact Nat.mul_le_mul_right _ h

theorem units_le_of_compareRanks {u v : UnpackedFloat} (hu : u.isFinite) (hv : v.isFinite)
    (hpu : Packable u) (hpv : Packable v)
    (h : (compareRanks (numberRank u) (numberRank v)).isLE) : units u ≤ units v := by
  have h := le_of_compareRanks h
  have hpos (m i : Nat) : (0 : Int) ≤ m * 2 ^ i := by positivity
  have hneg (m i : Nat) : -(m : Int) * 2 ^ i ≤ 0 := by
    rw [neg_mul]
    exact neg_nonpos.mpr (hpos m i)
  rcases u with _ | _ | _ | ⟨(_ | _), m, e, _⟩ <;> rcases v with _ | _ | _ | ⟨(_ | _), n, f, _⟩ <;>
    dsimp only [numberRank] at h <;>
    first
    | cases hu; done
    | cases hv; done
    | omega
    | skip
  case zero.zero => exact le_rfl
  case zero.finite.positive => exact hpos _ _
  case finite.negative.zero => exact hneg _ _
  case finite.negative.finite.positive => exact (hneg _ _).trans (hpos _ _)
  case finite.negative.finite.negative =>
    change -(m : Int) * _ ≤ -(n : Int) * _
    rw [neg_mul, neg_mul]
    exact neg_le_neg (magnitude_le hpv.1 hpu.1 (by omega))
  case finite.positive.finite.positive => exact magnitude_le hpu.1 hpv.1 (by omega)

/-- A number between two that compare equal compares equal to both. -/
theorem compareNumbers_between {x y z : Float} (hxy : (orderNumbers x y).isLE)
    (hyz : (orderNumbers y z).isLE) (h : compareNumbers x z = .eq) :
    compareNumbers x y = .eq ∧ compareNumbers y z = .eq := by
  have hpx := unpack_packable x.toModel
  have hpy := unpack_packable y.toModel
  have hpz := unpack_packable z.toModel
  rw [orderNumbers_eq_compareRanks] at hxy hyz
  have hle := le_of_compareRanks hxy
  have hle' := le_of_compareRanks hyz
  rw [compareNumbers_eq_eq_iff] at h ⊢
  rw [compareNumbers_eq_eq_iff]
  rcases h with ⟨hx, hz⟩ | ⟨hx, hz, hn⟩
  · have hy : y.isNaN := by
      rw [isNaN_iff_numberRank] at hx hz ⊢
      omega
    exact ⟨.inl ⟨hx, hy⟩, .inl ⟨hy, hz⟩⟩
  · have hy : y.toModel.unpack.isFinite := by
      rw [isFinite_iff_numberRank] at hx hz ⊢
      omega
    have hux := units_le_of_compareRanks hx hy hpx hpy hxy
    have huz := units_le_of_compareRanks hy hz hpy hpz hyz
    exact ⟨.inr ⟨hx, hy, near_of_le (by omega) hn⟩, .inr ⟨hy, hz, near_of_le (by omega) hn⟩⟩

end StepLang
