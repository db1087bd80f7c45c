import Mathlib.Algebra.Group.Nat.Defs
import StepLang.Value

/-! # Numbers and their bits

Taking a number apart and putting it together again gives the number. An unpacked number survives
its packing if its mantissa fills 53 bits, or is smaller at the least exponent, and its exponent is
not too large.
-/

namespace StepLang

open Float.Model UnpackedFloat

/-- The mantissa and the exponent are those of a number of double precision, the upper bound of the
exponent left out. -/
structure RoundedParts (m : Nat) (e : Int) : Prop where
  lt_mantissa : m < 2 ^ 53
  le_exponent : -1074 ≤ e
  full : 2 ^ 52 ≤ m ∨ e = -1074

/-- The unpacked number is one that packing keeps. -/
def Packable : UnpackedFloat → Prop
  | .finite _ m e _ => RoundedParts m e ∧ e ≤ 971
  | _ => True

theorem toNat_one_append (m : BitVec 52) : (1#1 ++ m).toNat = 2 ^ 52 + m.toNat := by
  rw [BitVec.toNat_append, ← Nat.shiftLeft_add_eq_or_of_lt m.isLt]
  rfl

def ofFields (s : Sign) (e : BitVec 11) (m : BitVec 52) : UnpackedFloat :=
  if e = -1#11 then if m = 0#52 then .infinity s else .notANumber
  else if e = 0#11 then
    if h : m = 0#52 then .zero s
    else .finite s m.toNat (-1074) (by simpa [BitVec.toNat_pos, BitVec.pos_iff_ne_zero])
  else .finite s (1#1 ++ m).toNat (e.toNat - 1075) (by rw [toNat_one_append]; omega)

theorem unpack_eq_ofFields (b : BitVec 64) : UnpackedFloat.unpack .binary64 b =
    ofFields (.ofBitVec (@unpackSign .binary64 b)) (@unpackExponent .binary64 b)
      (@unpackMantissa .binary64 b) := by
  delta UnpackedFloat.unpack ofFields
  generalize @unpackExponent .binary64 b = e
  by_cases hinf : e = -1#11
  · subst hinf
    rfl
  · by_cases hzero : e = 0#11
    · subst hzero
      rfl
    · exact (if_neg hinf).trans
        ((if_neg hzero).trans ((if_neg hinf).trans (if_neg hzero)).symm)

/-- The five forms of a number, by its exponent and its mantissa. -/
theorem ofFields_cases {s : Sign} {motive : BitVec 11 → BitVec 52 → UnpackedFloat → Prop}
    (infinity : motive (-1#11) 0#52 (.infinity s))
    (notANumber : ∀ m, m ≠ 0#52 → motive (-1#11) m .notANumber)
    (zero : motive 0#11 0#52 (.zero s))
    (small : ∀ m hpos, motive 0#11 m (.finite s m.toNat (-1074) hpos))
    (full : ∀ e m hpos, e.toNat ≠ 2047 → e.toNat ≠ 0 →
      motive e m (.finite s (1#1 ++ m).toNat (e.toNat - 1075) hpos))
    (e : BitVec 11) (m : BitVec 52) : motive e m (ofFields s e m) := by
  rw [ofFields]
  by_cases hinf : e = -1#11
  · rw [if_pos hinf, hinf]
    by_cases hnone : m = 0#52
    · rw [if_pos hnone, hnone]
      exact infinity
    · rw [if_neg hnone]
      exact notANumber m hnone
  · rw [if_neg hinf]
    by_cases hzero : e = 0#11
    · rw [if_pos hzero, hzero]
      by_cases hnone : m = 0#52
      · rw [dif_pos hnone, hnone]
        exact zero
      · rw [dif_neg hnone]
        exact small m _
    · rw [if_neg hzero]
      exact full e m _ (fun h => hinf (BitVec.eq_of_toNat_eq h))
        fun h => hzero (BitVec.eq_of_toNat_eq h)

theorem ofFields_packable (s : Sign) (e : BitVec 11) (m : BitVec 52) :
    Packable (ofFields s e m) := by
  refine ofFields_cases (motive := fun _ _ u => Packable u) trivial (fun _ _ => trivial) trivial
    ?_ ?_ e m
  · intro m hpos
    have hm := m.isLt
    exact ⟨⟨by omega, by omega, .inr rfl⟩, by omega⟩
  · intro e m _ hinf hzero
    have hm := m.isLt
    have he := e.isLt
    refine ⟨?_, by omega⟩
    rw [toNat_one_append]
    exact ⟨by omega, by omega, .inl (by omega)⟩

theorem unpack_packable (x : Float.Model) : Packable x.unpack := by
  change Packable (UnpackedFloat.unpack .binary64 x.toBits.toBitVec)
  rw [unpack_eq_ofFields]
  exact ofFields_packable _ _ _

theorem unpackSign_packComponents (S : Format) (s : Sign) (e : BitVec S.exponentBits)
    (m : BitVec S.mantissaBitsWithoutImplicit) :
    unpackSign (packComponents S s e m) = s.toBitVec := by
  apply BitVec.eq_of_getLsbD_eq
  intro i hi
  obtain rfl : i = 0 := by omega
  delta unpackSign packComponents
  simp [BitVec.getLsbD_append, BitVec.getElem_append]

theorem ofBitVec_toBitVec (s : Sign) : Sign.ofBitVec s.toBitVec = s := by
  cases s <;> rfl

theorem unpack_packComponents (s : Sign) (e : BitVec 11) (m : BitVec 52) :
    UnpackedFloat.unpack .binary64 (packComponents .binary64 s e m) = ofFields s e m := by
  rw [unpack_eq_ofFields, unpackSign_packComponents .binary64, ofBitVec_toBitVec,
    @unpackExponent_packComponents .binary64, @unpackMantissa_packComponents .binary64]

/-- The fields of a finite number: the exponent of a number with a full mantissa is stored with a
bias, a smaller mantissa stands at the least exponent. -/
theorem pack_finite {s : Sign} {m : Nat} {e : Int} {hm : 0 < m} (h : RoundedParts m e)
    (he : e ≤ 971) : UnpackedFloat.pack .binary64 (.finite s m e hm) =
      packComponents .binary64 s (if 2 ^ 52 ≤ m then .ofNat 11 (e + 1075).toNat else 0#11)
        (.ofNat 52 m) := by
  have hle := h.le_exponent
  have hlt := h.lt_mantissa
  have hlog : m.log2 + 1 = 53 ↔ 2 ^ 52 ≤ m := by
    have hl := @Nat.log2_lt m 53 (Nat.ne_of_gt hm)
    have hg := @Nat.le_log2 m 52 (Nat.ne_of_gt hm)
    omega
  have hbias : (e + 1023 + 52).toNat = (e + 1075).toNat := by omega
  have hfits : ¬ 2 ^ 11 ≤ (e + 1075).toNat + 1 := by omega
  change (if 2 ^ 11 ≤ (e + 1023 + 52).toNat + 1 then _
    else if m.log2 + 1 = 53 then
      packComponents .binary64 s (.ofNat 11 (e + 1023 + 52).toNat) (.ofNat 52 m)
    else packComponents .binary64 s 0#11 (.ofNat 52 m)) = _
  rw [hbias, if_neg hfits]
  by_cases hfull : 2 ^ 52 ≤ m
  · rw [if_pos (hlog.mpr hfull), if_pos hfull]
  · rw [if_neg (mt hlog.mp hfull), if_neg hfull]

theorem finite_congr {s : Sign} {m n : Nat} {e f : Int} {hm : 0 < m} {hn : 0 < n} (h : m = n)
    (h' : e = f) : UnpackedFloat.finite s m e hm = .finite s n f hn := by
  subst h h'
  rfl

theorem ofFields_of_parts {s : Sign} {m : Nat} {e : Int} {hm : 0 < m} (h : RoundedParts m e)
    (he : e ≤ 971) : ofFields s (if 2 ^ 52 ≤ m then .ofNat 11 (e + 1075).toNat else 0#11)
      (.ofNat 52 m) = .finite s m e hm := by
  have hle := h.le_exponent
  have hlt := h.lt_mantissa
  have hmant : (BitVec.ofNat 52 m).toNat = m % 2 ^ 52 := BitVec.toNat_ofNat ..
  by_cases hfull : 2 ^ 52 ≤ m
  · have hexp : (BitVec.ofNat 11 (e + 1075).toNat).toNat = (e + 1075).toNat := by
      rw [BitVec.toNat_ofNat]
      omega
    have hinf : BitVec.ofNat 11 (e + 1075).toNat ≠ -1#11 := by
      intro h
      have : (e + 1075).toNat = 2047 := hexp.symm.trans (congrArg BitVec.toNat h)
      omega
    have hzero : BitVec.ofNat 11 (e + 1075).toNat ≠ 0#11 := by
      intro h
      have : (e + 1075).toNat = 0 := hexp.symm.trans (congrArg BitVec.toNat h)
      omega
    have hval : (1#1 ++ BitVec.ofNat 52 m).toNat = m := by
      rw [toNat_one_append, hmant]
      omega
    have hexp' : ((e + 1075).toNat : Int) - 1075 = e := by omega
    rw [if_pos hfull, ofFields, if_neg hinf, if_neg hzero]
    exact finite_congr hval (by rw [hexp, hexp'])
  · have hval : (BitVec.ofNat 52 m).toNat = m := by
      rw [hmant]
      omega
    have hne : BitVec.ofNat 52 m ≠ 0#52 := by
      intro h
      have : m = 0 := hval.symm.trans (congrArg BitVec.toNat h)
      omega
    have hinf : 0#11 ≠ -1#11 := by decide
    obtain rfl := h.full.resolve_left hfull
    rw [if_neg hfull, ofFields, if_neg hinf, if_pos rfl, dif_neg hne]
    exact finite_congr hval rfl

theorem unpack_pack {u : UnpackedFloat} (h : Packable u) : (Float.Model.pack u).unpack = u := by
  change UnpackedFloat.unpack .binary64 (UnpackedFloat.pack .binary64 u) = u
  cases u with
  | notANumber => rfl
  | infinity s => cases s <;> rfl
  | zero s => cases s <;> rfl
  | finite s m e hm =>
    obtain ⟨h, he⟩ := h
    rw [pack_finite h he, unpack_packComponents, ofFields_of_parts h he]

theorem toBitVec_ofBitVec (b : BitVec 1) : (Sign.ofBitVec b).toBitVec = b := by
  revert b
  decide

theorem packComponents_unpack (b : BitVec 64) :
    packComponents .binary64 (.ofBitVec (@unpackSign .binary64 b)) (@unpackExponent .binary64 b)
      (@unpackMantissa .binary64 b) = b := by
  rw [packComponents, toBitVec_ofBitVec]
  change b.extractLsb' 63 1 ++ b.extractLsb' 52 11 ++ b.extractLsb' 0 52 = b
  rw [BitVec.extractLsb'_append_extractLsb'_eq_extractLsb' (show 63 = 52 + 11 from rfl),
    BitVec.extractLsb'_append_extractLsb'_eq_extractLsb' (show 52 = 0 + 52 from rfl)]
  exact BitVec.extractLsb'_eq_self

/-- The fields are those of a number: a missing number has one form only. -/
theorem pack_ofFields {s : Sign} {e : BitVec 11} {m : BitVec 52}
    (h : e = -1#11 → m ≠ 0#52 → packComponents .binary64 s e m = packedNaN .binary64) :
    UnpackedFloat.pack .binary64 (ofFields s e m) = packComponents .binary64 s e m := by
  revert h
  refine ofFields_cases (motive := fun e m u =>
    (e = -1#11 → m ≠ 0#52 → packComponents .binary64 s e m = packedNaN .binary64) →
      UnpackedFloat.pack .binary64 u = packComponents .binary64 s e m)
    (fun _ => rfl) (fun m hnone h => (h rfl hnone).symm) (fun _ => rfl) ?_ ?_ e m
  · intro m hpos _
    have hm := m.isLt
    rw [pack_finite ⟨by omega, by omega, .inr rfl⟩ (by omega), if_neg (by omega),
      BitVec.ofNat_toNat, BitVec.setWidth_eq]
  · intro e m _ hinf hzero _
    have hm := m.isLt
    have he := e.isLt
    have hval := toNat_one_append m
    have hexp : ((e.toNat : Int) - 1075 + 1075).toNat = e.toNat := by omega
    have hmant : BitVec.ofNat 52 (1#1 ++ m).toNat = m := by
      apply BitVec.eq_of_toNat_eq
      rw [hval, BitVec.toNat_ofNat]
      omega
    rw [pack_finite ⟨by omega, by omega, .inl (by omega)⟩ (by omega), if_pos (by omega), hexp,
      BitVec.ofNat_toNat, BitVec.setWidth_eq, hmant]

theorem pack_unpack (x : Float.Model) : Float.Model.pack x.unpack = x := by
  obtain ⟨⟨b⟩, hv⟩ := x
  have hb := packComponents_unpack b
  have hpack : UnpackedFloat.pack .binary64 (UnpackedFloat.unpack .binary64 b) = b := by
    rw [unpack_eq_ofFields, pack_ofFields, hb]
    intro he hm
    rw [hb]
    exact hv.eq_packedNaN he hm
  exact (Float.Model.mk.injEq _ _ _ _).mpr (congrArg UInt64.ofBitVec hpack)

theorem unpack_neg (x : Float) : (-x).toModel.unpack = x.toModel.unpack.neg := by
  refine unpack_pack ?_
  have h := unpack_packable x.toModel
  cases hx : x.toModel.unpack with
  | finite s m e hm =>
    rw [hx] at h
    exact h
  | _ => trivial

theorem neg_neg_number (x : Float) : - -x = x := by
  have hneg : (-x).toModel.unpack.neg = x.toModel.unpack := by
    rw [unpack_neg]
    cases x.toModel.unpack with
    | notANumber => rfl
    | infinity s => cases s <;> rfl
    | zero s => cases s <;> rfl
    | finite s m e hm => cases s <;> rfl
  change Float.ofModel (.pack (-x).toModel.unpack.neg) = x
  rw [hneg, pack_unpack]

theorem isNaN_neg (x : Float) : (-x).isNaN = x.isNaN := by
  change (-x).toModel.unpack.isNaN = x.toModel.unpack.isNaN
  rw [unpack_neg]
  cases x.toModel.unpack <;> rfl

theorem eq_of_unpack_eq {x y : Float} (h : x.toModel.unpack = y.toModel.unpack) : x = y := by
  change Float.ofModel x.toModel = Float.ofModel y.toModel
  rw [← pack_unpack x.toModel, h, pack_unpack]

/-- There is one missing number. -/
theorem eq_missing_of_isNaN {x : Float} (h : x.isNaN = true) : x = Number.missing := by
  change x.toModel.unpack.isNaN = true at h
  apply eq_of_unpack_eq
  cases hx : x.toModel.unpack with
  | notANumber => rfl
  | _ =>
    rw [hx] at h
    cases h

end StepLang
