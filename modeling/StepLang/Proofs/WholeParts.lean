import StepLang.Proofs.NumberCounts
import StepLang.Proofs.WholeNumbers

/-! # Integers as numbers and back

An integer below two to the power of 53 in magnitude is a number. Integer parts leave such a number
as it is, and taken as an integer of a range it gives the integer again.
-/

namespace StepLang

open Float.Model UnpackedFloat

/-! ### Signs -/

theorem units_neg (u : UnpackedFloat) : units u.neg = -units u := by
  cases u with
  | finite s m e hm =>
    cases s
    · change (m : Int) * _ = -(-(m : Int) * _)
      rw [neg_mul, neg_neg]
    · exact neg_mul _ _
  | _ => rfl

theorem units_abs (u : UnpackedFloat) : units u.abs = (units u).natAbs := by
  cases u with
  | finite s m e hm =>
    rw [natAbs_units, cast_shiftLeft]
    rfl
  | _ => rfl

section Signs

variable {x : Float} {i : Int}

theorem Denotes.neg (h : Denotes x i) : Denotes (-x) (-i) where
  finite := by
    have hfinite := h.finite
    rw [unpack_neg]
    cases hu : x.toModel.unpack <;> rw [hu] at hfinite <;> first | rfl | cases hfinite
  units_eq := by rw [unpack_neg, units_neg, h.units_eq, neg_mul]

theorem Denotes.abs (h : Denotes x i) : Denotes x.abs i.natAbs where
  finite := by
    have hfinite := h.finite
    rw [unpack_abs]
    cases hu : x.toModel.unpack <;> rw [hu] at hfinite <;> first | rfl | cases hfinite
  units_eq := by
    rw [unpack_abs, units_abs, h.units_eq, Int.natAbs_mul]
    rfl

end Signs

/-! ### Products -/

theorem shiftLeft_cancel {a b k : Nat} (h : a <<< k = b <<< k) : a = b := by
  rw [← Nat.shiftLeft_shiftRight a k, h, Nat.shiftLeft_shiftRight]

theorem shiftLeft_mul_shiftLeft (m n j k : Nat) : m <<< j * n <<< k = (m * n) <<< (j + k) := by
  rw [Nat.shiftLeft_eq, Nat.shiftLeft_eq, Nat.shiftLeft_eq, mul_mul_mul_comm, ← Nat.pow_add]

section Finite

variable {s : Sign} {m : Nat} {e i : Int} {hm : 0 < m}

theorem Exact.shiftLeft_eq (h : Exact (.finite s m e hm) i) :
    m <<< (e + 1074).toNat = i.natAbs <<< 1074 := by
  rw [← natAbs_mul_two_pow, ← h.units_eq, natAbs_units]

theorem Exact.natAbs_pos (h : Exact (.finite s m e hm) i) : 0 < i.natAbs := by
  refine Nat.pos_of_ne_zero fun hi => ?_
  have hunits := h.shiftLeft_eq
  rw [hi, Nat.zero_shiftLeft] at hunits
  exact hm.ne' (Nat.shiftLeft_eq_zero_iff.mp hunits)

theorem Exact.eq_apply (h : Exact (.finite s m e hm) i) : i = s.apply i.natAbs := by
  have hunits := h.units_eq
  have hpos : (0 : Int) < m * 2 ^ (e + 1074).toNat := by positivity
  have hpow : (0 : Int) ≤ 2 ^ 1074 := (Int.pow_pos (by decide)).le
  cases s with
  | positive =>
    have hi : 0 < i := pos_of_mul_pos_left (hunits ▸ hpos) hpow
    exact (Int.natAbs_of_nonneg hi.le).symm
  | negative =>
    have hi : i < 0 := by
      refine neg_of_mul_neg_left ?_ hpow
      calc i * 2 ^ 1074 = -(m : Int) * 2 ^ (e + 1074).toNat := hunits.symm
        _ = -(m * 2 ^ (e + 1074).toNat) := neg_mul _ _
        _ < 0 := neg_lt_zero.mpr hpos
    change i = -(i.natAbs : Int)
    rw [Int.ofNat_natAbs_of_nonpos hi.le, neg_neg]

/-- The mantissa of an integer is full, and no more than 52 of its digits stand after the point. -/
theorem Exact.full (h : Exact (.finite s m e hm) i) : 2 ^ 52 ≤ m ∧ -52 ≤ e := by
  obtain ⟨hlt, -, hfull⟩ := h.packable.1
  have hlog := congrArg Nat.log2 h.shiftLeft_eq
  rw [log2_shiftLeft hm.ne', log2_shiftLeft h.natAbs_pos.ne'] at hlog
  have hm53 : m.log2 < 53 := (Nat.log2_lt hm.ne').mpr hlt
  exact ⟨hfull.resolve_right (by omega), by omega⟩

end Finite

theorem apply_mul (s t : Sign) (m n : Int) : (s * t).apply (m * n) = s.apply m * t.apply n := by
  cases s <;> cases t
  · exact (Int.neg_mul_neg m n).symm
  · exact (Int.neg_mul m n).symm
  · exact (Int.mul_neg m n).symm
  · rfl

theorem exact_mul {u v : UnpackedFloat} {i j : Int} (hu : Exact u i) (hv : Exact v j)
    (hlt : (i * j).natAbs < 2 ^ 53) : Exact (UnpackedFloat.mul .binary64 u v) (i * j) := by
  cases u with
  | notANumber => cases hu.finite
  | infinity s => cases hu.finite
  | zero s =>
    obtain rfl := hu.eq_zero
    rw [Int.zero_mul]
    cases v with
    | notANumber => cases hv.finite
    | infinity s => cases hv.finite
    | zero s' => exact exact_zero _
    | finite s' m e hm => exact exact_zero _
  | finite s m e hm =>
    cases v with
    | notANumber => cases hv.finite
    | infinity s => cases hv.finite
    | zero s' =>
      obtain rfl := hv.eq_zero
      rw [Int.mul_zero]
      exact exact_zero _
    | finite s' m' e' hm' =>
      obtain ⟨hm52, he⟩ := hu.full
      obtain ⟨hm52', he'⟩ := hv.full
      have hexp : (((e + e' + 1074).toNat : Nat) : Int) - 1074 = e + e' := by omega
      have hlog : 52 ≤ (m * m').log2 :=
        (Nat.le_log2 (Nat.mul_pos hm hm').ne').mpr (hm52.trans (Nat.le_mul_of_pos_right m hm'))
      have hround := round_eq_roundWithAccuracy (s := s * s') (n := m * m') (d := 0) (e := e + e')
        (by omega)
      rw [Nat.shiftLeft_zero, Nat.cast_zero, Int.sub_zero] at hround
      change Exact (roundWithAccuracy .binary64 (s * s') (m * m') (e + e') .exact) (i * j)
      rw [← hround, ← hexp, hu.eq_apply, hv.eq_apply, ← apply_mul, ← Nat.cast_mul]
      refine exact_round (Nat.mul_pos hu.natAbs_pos hv.natAbs_pos) (Int.natAbs_mul i j ▸ hlt) ?_
      refine shiftLeft_cancel (k := 1074) ?_
      calc (m * m') <<< (e + e' + 1074).toNat <<< 1074
          = m <<< (e + 1074).toNat * m' <<< (e' + 1074).toNat := by
            rw [← Nat.shiftLeft_add, shiftLeft_mul_shiftLeft]
            congr 1
            omega
        _ = (i.natAbs * j.natAbs) <<< 1074 <<< 1074 := by
            rw [hu.shiftLeft_eq, hv.shiftLeft_eq, shiftLeft_mul_shiftLeft, ← Nat.shiftLeft_add]

theorem Denotes.mul {x y : Float} {i j : Int} (hx : Denotes x i) (hy : Denotes y j)
    (hlt : (i * j).natAbs < 2 ^ 53) : Denotes (x * y) (i * j) :=
  (exact_mul hx.exact hy.exact hlt).denotes rfl

/-! ### Integers as numbers -/

theorem denotes_one : Denotes 1.0 1 := ⟨rfl, by decide +kernel⟩

theorem denotes_ofNat {n : Nat} (hn : n < 2 ^ 53) : Denotes (Float.ofNat n) n := by
  have hcount : n.toUInt64.toNat = n := Nat.mod_eq_of_lt (hn.trans (by decide))
  have hword : Denotes n.toUInt64.toFloat n := by
    have h := exact_normalize (d := n.toUInt64.toNat) (i := n) (j := 1074)
      (by rwa [Int.natAbs_natCast]) (by rw [hcount]) .positive
    exact h.denotes rfl
  have hvalue : Float.ofNat n = n.toUInt64.toFloat * 1.0 := dif_pos ⟨hn, by decide⟩
  have h := hword.mul denotes_one (by rwa [mul_one, Int.natAbs_natCast])
  rwa [mul_one, ← hvalue] at h

theorem denotes_ofInt {i : Int} (hi : i.natAbs < 2 ^ 53) : Denotes (Float.ofInt i) i := by
  cases i with
  | ofNat n => exact denotes_ofNat hi
  | negSucc n => exact (denotes_ofNat hi).neg

/-! ### Integers of a range -/

/-- The parts of an integer: either it has no digits after the point, or they are all zero. -/
theorem Denotes.exists_parts {x : Float} {i : Int} (h : Denotes x i) :
    ∃ negative m e, Number.parts x = .finite negative m e ∧
      (if negative then -(i.natAbs : Int) else i.natAbs) = i ∧
      (0 ≤ e → m <<< e.natAbs = i.natAbs) ∧
      (e < 0 → m = i.natAbs <<< e.natAbs ∧ i.natAbs < 2 ^ 53) := by
  have hexact := h.exact
  rw [parts_eq_unpackedParts]
  cases hu : x.toModel.unpack with
  | notANumber => exact absurd hu h.ne_notANumber
  | infinity s =>
    rw [hu] at hexact
    cases hexact.finite
  | zero s =>
    rw [hu] at hexact
    obtain rfl := hexact.eq_zero
    exact ⟨_, _, _, rfl, by split <;> rfl, fun he => absurd he (by decide),
      fun _ => ⟨(Nat.zero_shiftLeft _).symm, by decide⟩⟩
  | finite s m e hm =>
    rw [hu] at hexact
    have hmin := hexact.full.2
    refine ⟨_, m, e, rfl, ?_, ?_, ?_⟩
    · have hsign := hexact.eq_apply
      cases s <;> exact hsign.symm
    · intro he
      refine shiftLeft_cancel (k := 1074) ?_
      rw [← Nat.shiftLeft_add, ← hexact.shiftLeft_eq]
      congr 1
      omega
    · intro he
      have hm : m = i.natAbs <<< e.natAbs := by
        refine shiftLeft_cancel (k := (e + 1074).toNat) ?_
        rw [hexact.shiftLeft_eq, ← Nat.shiftLeft_add]
        congr 1
        omega
      refine ⟨hm, lt_of_le_of_lt ?_ hexact.packable.1.lt_mantissa⟩
      rw [hm, Nat.shiftLeft_eq]
      exact Nat.le_mul_of_pos_right _ (Nat.two_pow_pos _)

theorem Denotes.clamp_eq {x : Float} {i : Int} (h : Denotes x i) (b : Number.Bounds) :
    Number.clamp b x = b.nearest i := by
  obtain ⟨negative, m, e, hparts, hsign, hwhole, hpoint⟩ := h.exists_parts
  have hmagnitude : (if 0 ≤ e then m <<< e.natAbs else m >>> e.natAbs) = i.natAbs := by
    split
    · rename_i he
      exact hwhole he
    · rename_i he
      rw [(hpoint (Int.not_le.mp he)).1, Nat.shiftLeft_shiftRight]
  unfold Number.clamp
  rw [hparts]
  dsimp only
  rw [hmagnitude, hsign]

theorem Number.Rounding.apply_shiftLeft (r : Number.Rounding) (negative : Bool) (n k : Nat) :
    r.apply negative (n <<< k) k = n := by
  have hwhole := Nat.shiftLeft_shiftRight n k
  unfold Number.Rounding.apply
  simp only [hwhole, beq_self_eq_true, Bool.not_true, Bool.and_false]
  cases r with
  | halfAway =>
    change (n <<< k + (1 <<< k) / 2) >>> k = n
    have hpos := Nat.two_pow_pos k
    rw [Nat.shiftLeft_eq, Nat.shiftLeft_eq, Nat.one_mul, Nat.shiftRight_eq_div_pow, Nat.mul_comm,
      Nat.mul_add_div hpos, Nat.div_eq_of_lt (Nat.div_lt_self hpos (by decide)), Nat.add_zero]
  | _ => rfl

/-- Integer parts leave an integer as it is, however they are rounded. -/
theorem Denotes.toWhole {x : Float} {i : Int} (h : Denotes x i) (r : Number.Rounding) :
    Denotes (Number.toWhole r x) i := by
  obtain ⟨negative, m, e, hparts, hsign, -, hpoint⟩ := h.exists_parts
  unfold Number.toWhole
  rw [hparts]
  dsimp only
  split
  · exact h
  · rename_i he
    obtain ⟨rfl, hlt⟩ := hpoint (Int.not_le.mp he)
    rw [Number.Rounding.apply_shiftLeft]
    have hmagnitude := denotes_ofNat hlt
    cases negative with
    | false => rwa [show (i.natAbs : Int) = i from hsign] at hmagnitude
    | true =>
      have hnegative := hmagnitude.neg
      rwa [show -(i.natAbs : Int) = i from hsign] at hnegative

end StepLang
