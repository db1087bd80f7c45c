import StepLang.Proofs.NumberRounding

/-! # Arithmetic of integers in numbers

Finite numbers are ordered as their counts of units are, so numbers that stand for integers are
ordered as the integers. Their sum is exact as long as it is below two to the power of 53 in
magnitude.
-/

namespace StepLang

open Float.Model UnpackedFloat

/-! ### The order of units -/

/-- The rank of the number of so many units. -/
def unitRank (d : Int) : Int × Int × Int :=
  (d.sign, d.sign * (roundUnits d.natAbs).2, d.sign * (roundUnits d.natAbs).1)

theorem numberRank_eq_unitRank {u : UnpackedFloat} (hu : u.isFinite) (hp : Packable u) :
    numberRank u = unitRank (units u) := by
  cases u with
  | notANumber => cases hu
  | infinity s => cases hu
  | zero s => rfl
  | finite s m e hm =>
    have hsign : (units (.finite s m e hm)).sign = s.apply 1 := by
      have hpow : (0 : Int) < m * 2 ^ (e + 1074).toNat := by positivity
      cases s
      · change (-(m : Int) * 2 ^ (e + 1074).toNat).sign = -1
        rw [neg_mul, Int.sign_neg, Int.sign_eq_one_of_pos hpow]
      · exact Int.sign_eq_one_of_pos hpow
    rw [unitRank, hsign, natAbs_units, roundUnits_shiftLeft hm hp.1]
    cases s with
    | positive =>
      dsimp only [Sign.apply, numberRank]
      rw [one_mul, one_mul]
    | negative =>
      dsimp only [Sign.apply, numberRank]
      rw [neg_one_mul, neg_one_mul]

theorem compareRanks_eq_compare_units {u v : UnpackedFloat} (hu : u.isFinite) (hv : v.isFinite)
    (hpu : Packable u) (hpv : Packable v) :
    compareRanks (numberRank u) (numberRank v) = compare (units u) (units v) := by
  rcases lt_trichotomy (units u) (units v) with h | h | h
  · rw [Int.compare_eq_lt.mpr h]
    by_contra hne
    have hle := units_le_of_compareRanks hv hu hpv hpu (by
      rw [@Std.OrientedCmp.eq_swap _ compareRanks]
      cases hc : compareRanks (numberRank u) (numberRank v) <;> simp_all)
    omega
  · rw [numberRank_eq_unitRank hu hpu, numberRank_eq_unitRank hv hpv, h,
      @Std.ReflCmp.compare_self _ compareRanks, Int.compare_eq_eq.mpr rfl]
  · rw [Int.compare_eq_gt.mpr h]
    by_contra hne
    have hle := units_le_of_compareRanks hu hv hpu hpv (by
      cases hc : compareRanks (numberRank u) (numberRank v) <;> simp_all)
    omega

/-! ### Integers -/

/-- The number is finite, and as many units as the integer. -/
structure Denotes (x : Float) (i : Int) : Prop where
  finite : x.toModel.unpack.isFinite
  units_eq : units x.toModel.unpack = i * 2 ^ 1074

section Order

variable {x y : Float} {i j : Int}

theorem Denotes.ne_notANumber (hx : Denotes x i) : x.toModel.unpack ≠ .notANumber := by
  intro h
  have := hx.finite
  rw [h] at this
  cases this

theorem Denotes.isNaN (hx : Denotes x i) : x.isNaN = false :=
  isNaN_eq_false hx.ne_notANumber

theorem Denotes.compare_eq (hx : Denotes x i) (hy : Denotes y j) :
    x.toModel.unpack.compare y.toModel.unpack = some (compare i j) := by
  have hpos : (0 : Int) < 2 ^ 1074 := Int.pow_pos (by decide)
  rw [compare_eq_compareRanks hx.ne_notANumber hy.ne_notANumber,
    compareRanks_eq_compare_units hx.finite hy.finite (unpack_packable _) (unpack_packable _),
    hx.units_eq, hy.units_eq]
  rcases lt_trichotomy i j with h | rfl | h
  · rw [Int.compare_eq_lt.mpr h, Int.compare_eq_lt.mpr (Int.mul_lt_mul_of_pos_right h hpos)]
  · rw [Int.compare_eq_eq.mpr rfl, Int.compare_eq_eq.mpr rfl]
  · rw [Int.compare_eq_gt.mpr h, Int.compare_eq_gt.mpr (Int.mul_lt_mul_of_pos_right h hpos)]

theorem Denotes.le_iff (hx : Denotes x i) (hy : Denotes y j) : x ≤ y ↔ i ≤ j := by
  rw [le_iff_compare, hx.compare_eq hy, Option.any_some, Int.isLE_compare]

theorem Denotes.lt_iff (hx : Denotes x i) (hy : Denotes y j) : x < y ↔ i < j := by
  rw [lt_iff_compare, hx.compare_eq hy, Option.some.injEq, Int.compare_eq_lt]

theorem Denotes.beq_iff (hx : Denotes x i) (hy : Denotes y j) : (x == y) = true ↔ i = j := by
  change (x.toModel.unpack.compare y.toModel.unpack == some .eq) = true ↔ _
  rw [beq_iff_eq, hx.compare_eq hy, Option.some.injEq, Int.compare_eq_eq]

theorem denotes_zero : Denotes 0.0 0 :=
  ⟨rfl, by decide +kernel⟩

end Order

/-! ### Exact sums -/

theorem cast_shiftLeft (m k : Nat) : ((m <<< k : Nat) : Int) = m * 2 ^ k := by
  rw [Nat.shiftLeft_eq, Nat.cast_mul, Nat.cast_pow, Nat.cast_ofNat]

theorem natAbs_mul_two_pow (d : Int) (k : Nat) : (d * 2 ^ k).natAbs = d.natAbs <<< k := by
  rw [Int.natAbs_mul, Int.natAbs_pow, Nat.shiftLeft_eq]
  rfl

/-- A positive integer below two to the power of 53 has a full mantissa. -/
theorem exists_roundedParts {m : Nat} (hm : 0 < m) (hlt : m < 2 ^ 53) :
    ∃ q e, 0 < q ∧ RoundedParts q e ∧ e ≤ 0 ∧ m <<< 1074 = q <<< (e + 1074).toNat := by
  have hlog : m.log2 ≤ 52 := Nat.le_of_lt_succ ((Nat.log2_lt hm.ne').mpr hlt)
  have hq := log2_shiftLeft hm.ne' (52 - m.log2)
  have hpos : m <<< (52 - m.log2) ≠ 0 := by simpa using hm.ne'
  refine ⟨m <<< (52 - m.log2), -(52 - m.log2 : Nat), Nat.pos_of_ne_zero hpos,
    ⟨?_, by omega, .inl ?_⟩, by omega, ?_⟩
  · exact (Nat.log2_lt hpos).mp (by omega)
  · exact (Nat.le_log2 hpos).mp (by omega)
  · rw [← Nat.shiftLeft_add]
    congr 1
    omega

/-- The unpacked number is as many units as the integer, and packing keeps it. -/
structure Exact (u : UnpackedFloat) (i : Int) : Prop where
  finite : u.isFinite
  packable : Packable u
  units_eq : units u = i * 2 ^ 1074

theorem Exact.denotes {x : Float} {u : UnpackedFloat} {i : Int} (h : Exact u i)
    (hx : x.toModel = .pack u) : Denotes x i := by
  have hu := unpack_pack h.packable
  rw [← hx] at hu
  exact ⟨by rw [hu]; exact h.finite, by rw [hu]; exact h.units_eq⟩

theorem Denotes.exact {x : Float} {i : Int} (h : Denotes x i) : Exact x.toModel.unpack i :=
  ⟨h.finite, unpack_packable _, h.units_eq⟩

theorem exact_zero (s : Sign) : Exact (.zero s) 0 :=
  ⟨rfl, trivial, (Int.zero_mul _).symm⟩

theorem Exact.eq_zero {s : Sign} {i : Int} (h : Exact (.zero s) i) : i = 0 := by
  have hunits : 0 = i * 2 ^ 1074 := h.units_eq
  exact (mul_eq_zero.mp hunits.symm).resolve_right (Int.pow_pos (by decide)).ne'

/-- A number of as many units as a positive integer is not rounded. -/
theorem exact_round {s : Sign} {n j m : Nat} (hm : 0 < m) (hlt : m < 2 ^ 53)
    (h : n <<< j = m <<< 1074) : Exact (round .binary64 s n (j - 1074)) (s.apply m) := by
  obtain ⟨q, e, hq0, hparts, he, hq⟩ := exists_roundedParts hm hlt
  have hround := roundUnits_shiftLeft hq0 hparts
  rw [← hq, ← h] at hround
  have hn : 0 < n := by
    refine Nat.pos_of_ne_zero ?_
    rintro rfl
    rw [Nat.zero_shiftLeft] at h
    exact hm.ne' (Nat.shiftLeft_eq_zero_iff.mp h.symm)
  have hpos : 0 < (roundUnits (n <<< j)).1 := by rwa [hround]
  rw [round_eq_roundUnits hn j hpos]
  generalize roundUnits (n <<< j) = r at hround hpos ⊢
  subst hround
  refine ⟨rfl, ⟨hparts, by omega⟩, ?_⟩
  have hcast : (q : Int) * 2 ^ (e + 1074).toNat = m * 2 ^ 1074 := by
    rw [← cast_shiftLeft, ← cast_shiftLeft, hq]
  cases s
  · change -(q : Int) * _ = -(m : Int) * _
    rw [neg_mul, neg_mul, hcast]
  · exact hcast

theorem exact_normalize {d i : Int} {j : Nat} (hlt : i.natAbs < 2 ^ 53)
    (h : d * 2 ^ j = i * 2 ^ 1074) (s : Sign) :
    Exact (normalize .binary64 d (j - 1074) s) i := by
  have hj : (0 : Int) < 2 ^ j := Int.pow_pos (by decide)
  have hk : (0 : Int) < 2 ^ 1074 := Int.pow_pos (by decide)
  have hshift : d.natAbs <<< j = i.natAbs <<< 1074 := by
    rw [← natAbs_mul_two_pow, ← natAbs_mul_two_pow, h]
  unfold UnpackedFloat.normalize
  rcases lt_trichotomy d 0 with hd | rfl | hd
  · have hi : i < 0 := neg_of_mul_neg_left (h ▸ mul_neg_of_neg_of_pos hd hj) hk.le
    have hround := exact_round (s := .negative) (Int.natAbs_pos.mpr hi.ne) hlt hshift
    rw [Int.compare_eq_lt.mpr hd, show (-d).toNat = d.natAbs by omega]
    rwa [show Sign.negative.apply i.natAbs = i by simp only [Sign.apply]; omega] at hround
  · rw [zero_mul] at h
    obtain rfl := (mul_eq_zero.mp h.symm).resolve_right hk.ne'
    exact exact_zero s
  · have hi : 0 < i := pos_of_mul_pos_left (h ▸ mul_pos hd hj) hk.le
    have hround := exact_round (s := .positive) (Int.natAbs_pos.mpr hi.ne') hlt hshift
    rw [Int.compare_eq_gt.mpr hd, show d.toNat = d.natAbs by omega]
    rwa [show Sign.positive.apply i.natAbs = i by simp only [Sign.apply]; omega] at hround

theorem exact_add {u v : UnpackedFloat} {i j : Int} (hu : Exact u i) (hv : Exact v j)
    (hlt : (i + j).natAbs < 2 ^ 53) : Exact (UnpackedFloat.add .binary64 u v) (i + j) := by
  cases u with
  | notANumber => cases hu.finite
  | infinity s => cases hu.finite
  | zero s =>
    obtain rfl := hu.eq_zero
    rw [Int.zero_add]
    cases v with
    | notANumber => cases hv.finite
    | infinity s => cases hv.finite
    | zero s' =>
      obtain rfl := hv.eq_zero
      cases s <;> cases s' <;> exact exact_zero _
    | finite s' m e hm => exact hv
  | finite s m e hm =>
    cases v with
    | notANumber => cases hv.finite
    | infinity s => cases hv.finite
    | zero s' =>
      obtain rfl := hv.eq_zero
      rw [Int.add_zero]
      exact hu
    | finite s' m' e' hm' =>
      -- both are brought to the lesser exponent
      have hmin : -1074 ≤ min e e' := le_min hu.packable.1.le_exponent hv.packable.1.le_exponent
      have hexp : (((min e e' + 1074).toNat : Nat) : Int) - 1074 = min e e' := by omega
      have hunits := hu.units_eq
      have hunits' := hv.units_eq
      rw [units_finite s m hm hmin (min_le_left e e')] at hunits
      rw [units_finite s' m' hm' hmin (min_le_right e e')] at hunits'
      have hsum := exact_normalize hlt (d := s.apply (m <<< (e - min e e').toNat : Nat) +
        s'.apply (m' <<< (e' - min e e').toNat : Nat)) (by rw [add_mul, add_mul, hunits, hunits'])
        .positive
      rwa [hexp] at hsum

/-- The sum of integers is exact if it is below two to the power of 53. -/
theorem Denotes.add {x y : Float} {i j : Int} (hx : Denotes x i) (hy : Denotes y j)
    (hlt : (i + j).natAbs < 2 ^ 53) : Denotes (x + y) (i + j) :=
  (exact_add hx.exact hy.exact hlt).denotes rfl

end StepLang
