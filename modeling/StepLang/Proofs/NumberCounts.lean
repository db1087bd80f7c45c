import Mathlib.Order.Nat
import StepLang.Proofs.NumberOrder
import StepLang.Proofs.NumberPacking

/-! # Numbers as counts

The parts of a number are those of its unpacked form. A number without a fraction that is not below
one gives a count that is not zero.
-/

namespace StepLang

open Float.Model UnpackedFloat

def unpackedParts : UnpackedFloat → Number.Parts
  | .notANumber => .missing
  | .infinity s => .infinite (s.toBitVec == 1#1)
  | .zero s => .finite (s.toBitVec == 1#1) 0 (-1074)
  | .finite s m e _ => .finite (s.toBitVec == 1#1) m e

theorem toNat_unpackExponent (b : BitVec 64) :
    (@unpackExponent .binary64 b).toNat = b.toNat / Number.leadingBit % 2048 := by
  change ((b.extractLsb 62 52).cast _).toNat = _
  rw [BitVec.toNat_cast, BitVec.extractLsb_toNat, Nat.shiftRight_eq_div_pow]
  rfl

theorem toNat_unpackMantissa (b : BitVec 64) :
    (@unpackMantissa .binary64 b).toNat = b.toNat % Number.leadingBit := by
  change ((b.extractLsb 51 0).cast _).toNat = _
  rw [BitVec.toNat_cast, BitVec.extractLsb_toNat, Nat.shiftRight_zero]
  rfl

theorem toNat_unpackSign (b : BitVec 64) : (@unpackSign .binary64 b).toNat = b.toNat >>> 63 := by
  change ((b.extractLsb 63 63).cast _).toNat = _
  rw [BitVec.toNat_cast, BitVec.extractLsb_toNat]
  refine Nat.mod_eq_of_lt ?_
  rw [Nat.shiftRight_eq_div_pow]
  exact Nat.div_lt_of_lt_mul b.isLt

theorem unpackedParts_ofFields (s : Sign) (e : BitVec 11) (m : BitVec 52) :
    unpackedParts (ofFields s e m) =
      if e.toNat == 2047 then
        if m.toNat == 0 then .infinite (s.toBitVec == 1#1) else .missing
      else if e.toNat == 0 then .finite (s.toBitVec == 1#1) m.toNat (-1074)
      else .finite (s.toBitVec == 1#1) (Number.leadingBit + m.toNat)
        (Int.ofNat e.toNat - 1075) := by
  simp only [beq_iff_eq]
  refine ofFields_cases (motive := fun e m u => unpackedParts u =
    if e.toNat = 2047 then
      if m.toNat = 0 then .infinite (s.toBitVec == 1#1) else .missing
    else if e.toNat = 0 then .finite (s.toBitVec == 1#1) m.toNat (-1074)
    else .finite (s.toBitVec == 1#1) (Number.leadingBit + m.toNat) (Int.ofNat e.toNat - 1075))
    rfl ?_ rfl (fun _ _ => rfl) ?_ e m
  · intro m hnone
    have hnone : m.toNat ≠ 0 := fun h => hnone (BitVec.eq_of_toNat_eq h)
    exact (if_neg hnone).symm
  · intro e m _ hinf hzero
    rw [if_neg hinf, if_neg hzero]
    change Number.Parts.finite _ (1#1 ++ m).toNat _ = _
    rw [toNat_one_append]
    rfl

theorem parts_eq_unpackedParts (x : Float) : Number.parts x = unpackedParts x.toModel.unpack := by
  have hunpack : x.toModel.unpack = UnpackedFloat.unpack .binary64 x.toBits.toBitVec := rfl
  have hbits : x.toBits.toNat = x.toBits.toBitVec.toNat := rfl
  unfold Number.parts
  rw [hunpack, unpack_eq_ofFields, hbits, unpackedParts_ofFields]
  generalize x.toBits.toBitVec = b
  have hsign : (b.toNat >>> 63 == 1) =
      ((Sign.ofBitVec (@unpackSign .binary64 b)).toBitVec == 1#1) := by
    rw [toBitVec_ofBitVec, ← toNat_unpackSign, Bool.eq_iff_iff, beq_iff_eq, beq_iff_eq,
      ← BitVec.toNat_inj]
    rfl
  simp only [hsign, ← toNat_unpackExponent, ← toNat_unpackMantissa]

theorem unpack_one :
    (1.0 : Float).toModel.unpack = .finite .positive (2 ^ 52) (-52) (by decide) := rfl

theorem le_exponent_of_not_lt {m n : Nat} {e f : Int} {hm : 0 < m} {hn : 0 < n}
    (h : (UnpackedFloat.finite .positive m e hm).compare (.finite .positive n f hn) ≠ some .lt) :
    f ≤ e := by
  refine Int.not_lt.mp fun he => h ?_
  change some ((compare e f).then (compare m n)) = some .lt
  rw [Int.compare_eq_lt.mpr he]
  rfl

/-- A number without a fraction gives a count of one at least unless it is below one. -/
theorem one_le_toCount {x : Float} (hx : ¬ x < 1.0) (hw : Number.isWhole x = true) :
    1 ≤ Number.toCount x := by
  rw [lt_iff_compare, unpack_one] at hx
  unfold Number.isWhole at hw
  unfold Number.toCount Number.clamp
  rw [parts_eq_unpackedParts] at hw ⊢
  have hpack := unpack_packable x.toModel
  generalize x.toModel.unpack = u at hx hw hpack ⊢
  cases u with
  | notANumber => cases hw
  | infinity s => cases hw
  | zero s => cases s <;> exact absurd rfl hx
  | finite s m e hm =>
    cases s with
    | negative => exact absurd rfl hx
    | positive =>
      obtain ⟨⟨-, -, hfull⟩, -⟩ := hpack
      have he := le_exponent_of_not_lt hx
      have hm52 : 2 ^ 52 ≤ m := by omega
      have hwhole : 1 ≤ (if 0 ≤ e then m <<< e.natAbs else m >>> e.natAbs : Nat) := by
        split
        · rw [Nat.shiftLeft_eq]
          exact Nat.mul_pos hm (Nat.two_pow_pos _)
        · rw [Nat.shiftRight_eq_div_pow, Nat.one_le_div_iff (Nat.two_pow_pos _)]
          exact (Nat.pow_le_pow_right (by decide) (by omega)).trans hm52
      change 1 ≤ (max (0 : Int) (min 0xffffffffffffffff
        ((if 0 ≤ e then m <<< e.natAbs else m >>> e.natAbs : Nat) : Int))).toNat
      omega

end StepLang
