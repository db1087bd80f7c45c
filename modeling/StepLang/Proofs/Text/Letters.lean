import StepLang.Text.Blank
import StepLang.Text.Letters

/-! # Letters of names by their codes

The characters of names are ranges of codes and the underscore. Upper case moves the small letters
down by one distance, to the capital letters, and leaves every other character as it is.
-/

namespace StepLang.Text

variable {c : Char}

theorem isUpper_iff : c.isUpper = true ↔ 65 ≤ c.toNat ∧ c.toNat ≤ 90 :=
  decide_eq_true_iff

theorem isLower_iff : c.isLower = true ↔ 97 ≤ c.toNat ∧ c.toNat ≤ 122 :=
  (Bool.and_eq_true_iff).trans (and_congr decide_eq_true_iff decide_eq_true_iff)

theorem isLower_eq_false_iff : c.isLower = false ↔ c.toNat < 97 ∨ 122 < c.toNat := by
  rw [← Bool.not_eq_true, isLower_iff]
  omega

theorem isNameStart_iff : isNameStart c = true ↔
    (65 ≤ c.toNat ∧ c.toNat ≤ 90) ∨ (97 ≤ c.toNat ∧ c.toNat ≤ 122) ∨ c.toNat = 95 := by
  have hunderscore : c = '_' ↔ c.toNat = 95 := Char.toNat_inj.symm
  have halpha : c.isAlpha = true ↔ c.isUpper = true ∨ c.isLower = true := Bool.or_eq_true_iff
  rw [isNameStart, Bool.or_eq_true_iff, halpha, isUpper_iff, isLower_iff, beq_iff_eq, hunderscore,
    or_assoc]

theorem isNameChar_iff : isNameChar c = true ↔
    isNameStart c = true ∨ 48 ≤ c.toNat ∧ c.toNat ≤ 57 := by
  have halphanum : c.isAlphanum = true ↔ c.isAlpha = true ∨ c.isDigit = true := Bool.or_eq_true_iff
  rw [isNameChar, isNameStart, Bool.or_eq_true_iff, Bool.or_eq_true_iff, halphanum,
    Char.isDigit_iff_toNat, or_right_comm]
  rfl

theorem isDigit_of_isNameStart (h : isNameStart c = true) : c.isDigit = false := by
  rw [← Bool.not_eq_true, Char.isDigit_iff_toNat]
  have hnine : '9'.toNat = 57 := rfl
  rw [isNameStart_iff] at h
  omega

theorem isBlank_of_isNameChar (h : isNameChar c = true) : isBlank c = false := by
  rw [isNameChar_iff, isNameStart_iff] at h
  simp only [isBlank, Bool.or_eq_false_iff, Bool.and_eq_false_iff, decide_eq_false_iff_not,
    beq_eq_false_iff_ne]
  omega

/-! ### Upper case -/

theorem toUpper_eq_self (h : c.isLower = false) : c.toUpper = c := by
  rw [← Bool.not_eq_true, isLower_iff] at h
  exact dif_neg h

theorem toNat_toUpper (h : c.isLower = true) : c.toUpper.toNat = c.toNat - 32 := by
  obtain ⟨ha, hz⟩ := isLower_iff.mp h
  have hrange : 'a'.val ≤ c.val ∧ c.val ≤ 'z'.val := ⟨ha, hz⟩
  -- The distance is added modulo 2 ^ 32, where it stands for -32.
  have hdistance : ('A'.val - 'a'.val).toNat = 4294967264 := by decide
  delta Char.toUpper
  rw [dif_pos hrange, Char.toNat_mk, UInt32.toNat_add, hdistance, Char.toNat_val]
  omega

theorem eq_of_toUpper {d : Char} (h : c.toUpper = d) : c = d ∨ c.toNat = d.toNat + 32 := by
  cases hlower : c.isLower with
  | false => exact .inl ((toUpper_eq_self hlower).symm.trans h)
  | true =>
    right
    rw [← h, toNat_toUpper hlower]
    rw [isLower_iff] at hlower
    omega

theorem toUpper_toUpper (c : Char) : c.toUpper.toUpper = c.toUpper := by
  cases h : c.isLower with
  | false => rw [toUpper_eq_self h, toUpper_eq_self h]
  | true =>
    apply toUpper_eq_self
    rw [isLower_eq_false_iff, toNat_toUpper h]
    rw [isLower_iff] at h
    omega

theorem upper_upper (s : String) : upper (upper s) = upper s := by
  simp only [upper, ← String.toList_inj, String.toList_map, List.map_map, Function.comp_def,
    toUpper_toUpper]

theorem isNameStart_toUpper (c : Char) : isNameStart c.toUpper = isNameStart c := by
  cases h : c.isLower with
  | false => rw [toUpper_eq_self h]
  | true =>
    rw [Bool.eq_iff_iff, isNameStart_iff, isNameStart_iff, toNat_toUpper h]
    rw [isLower_iff] at h
    omega

theorem isNameChar_toUpper (c : Char) : isNameChar c.toUpper = isNameChar c := by
  cases h : c.isLower with
  | false => rw [toUpper_eq_self h]
  | true =>
    rw [Bool.eq_iff_iff, isNameChar_iff, isNameChar_iff, isNameStart_toUpper, isNameStart_iff,
      toNat_toUpper h]
    rw [isLower_iff] at h
    omega

theorem toUpper_of_isNameChar (h : isNameChar c = false) : c.toUpper = c := by
  apply toUpper_eq_self
  rw [← Bool.not_eq_true, isNameChar_iff, isNameStart_iff] at h
  rw [isLower_eq_false_iff]
  omega

end StepLang.Text
