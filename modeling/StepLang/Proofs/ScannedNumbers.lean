import StepLang.Proofs.NumberPacking
import StepLang.Token.Scanner

/-! # Numbers that are read from text

A literal denotes the number nearest to it, which may be infinite but is not the missing number. So
no token of a scanned program is the missing number.
-/

namespace StepLang

open Float.Model UnpackedFloat

/-! ### Arithmetic that does not lose a number -/

theorem isNaN_dite {p : Prop} [Decidable p] {u : p → UnpackedFloat} {v : ¬ p → UnpackedFloat}
    (hu : ∀ h, (u h).isNaN = false) (hv : ∀ h, (v h).isNaN = false) :
    (if h : p then u h else v h).isNaN = false := by
  split
  · exact hu _
  · exact hv _

theorem isNaN_ite {p : Prop} [Decidable p] {u v : UnpackedFloat} (hu : u.isNaN = false)
    (hv : v.isNaN = false) : (if p then u else v).isNaN = false := by
  split
  · exact hu
  · exact hv

theorem isNaN_ofFields {s : Sign} {e : BitVec 11} (h : e ≠ -1#11) (m : BitVec 52) :
    (ofFields s e m).isNaN = false := by
  revert h
  exact ofFields_cases (motive := fun e _ u => e ≠ -1#11 → u.isNaN = false) (fun _ => rfl)
    (fun _ _ h => absurd rfl h) (fun _ => rfl) (fun _ _ _ => rfl) (fun _ _ _ _ _ _ => rfl) e m

theorem isNaN_pack {u : UnpackedFloat} (h : u.isNaN = false) :
    (Float.Model.pack u).unpack.isNaN = false := by
  change (UnpackedFloat.unpack .binary64 (UnpackedFloat.pack .binary64 u)).isNaN = false
  cases u with
  | notANumber => cases h
  | infinity s => cases s <;> rfl
  | zero s => cases s <;> rfl
  | finite s m e hm =>
    change (UnpackedFloat.unpack .binary64
      (if 2 ^ 11 ≤ (e + 1023 + 52).toNat + 1 then packedInfinity .binary64 s
        else if m.log2 + 1 = 53 then
          packComponents .binary64 s (.ofNat 11 (e + 1023 + 52).toNat) (.ofNat 52 m)
        else packComponents .binary64 s 0#11 (.ofNat 52 m))).isNaN = false
    split
    · cases s <;> rfl
    · rename_i hfits
      split
      · rw [unpack_packComponents]
        apply isNaN_ofFields
        intro hones
        have hexp := congrArg BitVec.toNat hones
        rw [BitVec.toNat_ofNat] at hexp
        have : (e + 1023 + 52).toNat % 2 ^ 11 = 2047 := hexp
        omega
      · rw [unpack_packComponents]
        exact isNaN_ofFields (by decide) _

theorem isNaN_roundWithAccuracy (s : Sign) (m : Nat) (e : Int) (a : Accuracy) :
    (roundWithAccuracy .binary64 s m e a).isNaN = false := by
  rw [roundWithAccuracy]
  dsimp only
  exact isNaN_dite (fun _ => rfl) fun _ => rfl

theorem isNaN_round (s : Sign) (m : Nat) (e : Int) : (round .binary64 s m e).isNaN = false :=
  isNaN_roundWithAccuracy ..

theorem isNaN_mul_finite {u : UnpackedFloat} (hu : u.isNaN = false) (s : Sign) (m : Nat) (e : Int)
    (hm : 0 < m) : (UnpackedFloat.mul .binary64 u (.finite s m e hm)).isNaN = false := by
  cases u with
  | notANumber => cases hu
  | infinity s' => rfl
  | zero s' => rfl
  | finite s' m' e' hm' => exact isNaN_roundWithAccuracy ..

theorem isNaN_div_finite {u : UnpackedFloat} (hu : u.isNaN = false) (s : Sign) (m : Nat) (e : Int)
    (hm : 0 < m) : (UnpackedFloat.div .binary64 u (.finite s m e hm)).isNaN = false := by
  cases u with
  | notANumber => cases hu
  | infinity s' => rfl
  | zero s' => rfl
  | finite s' m' e' hm' => exact isNaN_roundWithAccuracy ..

theorem isNaN_toFloat (n : UInt64) : n.toFloat.toModel.unpack.isNaN = false := by
  apply isNaN_pack
  change (UnpackedFloat.normalize .binary64 (n.toNat : Int) 0 .positive).isNaN = false
  unfold UnpackedFloat.normalize
  split
  · exact isNaN_round ..
  · rfl
  · exact isNaN_round ..

/-! ### Decimals -/

theorem unpack_powerOfTen (i : Fin 23) : ∃ s m e, ∃ hm : 0 < m,
    (Float.exactlyRepresentablePowersOfTen[i]).toModel.unpack = .finite s m e hm := by
  have hpositive : ∀ i : Fin 23,
      (Float.exactlyRepresentablePowersOfTen[i]).toModel.unpack.isFinite = true ∧
      UnpackedFloat.lt (.zero .positive) (Float.exactlyRepresentablePowersOfTen[i]).toModel.unpack =
        true := by decide +kernel
  obtain ⟨hfinite, hlt⟩ := hpositive i
  cases hu : (Float.exactlyRepresentablePowersOfTen[i]).toModel.unpack with
  | finite s m e hm => exact ⟨s, m, e, hm, rfl⟩
  | zero s =>
    rw [hu] at hlt
    cases hlt
  | infinity s =>
    rw [hu] at hfinite
    cases hfinite
  | notANumber =>
    rw [hu] at hfinite
    cases hfinite

theorem isNaN_scientific (m : Nat) (e : Int) :
    (UnpackedFloat.ofScientific .binary64 m e).isNaN = false := by
  delta UnpackedFloat.ofScientific
  refine isNaN_dite (fun _ => rfl) fun hm => ?_
  refine isNaN_ite rfl (isNaN_ite rfl (isNaN_ite ?_ ?_))
  · exact isNaN_mul_finite rfl ..
  · exact isNaN_div_finite rfl ..

theorem isNaN_ofScientific (m : Nat) (s : Bool) (e : Nat) :
    (Float.ofScientific m s e).isNaN = false := by
  unfold Float.ofScientific
  split
  · rename_i h
    obtain ⟨s', m', e', hm', hten⟩ := unpack_powerOfTen ⟨e, by omega⟩
    have hm := isNaN_toFloat m.toUInt64
    have hdiv := isNaN_div_finite hm s' m' e' hm'
    have hmul := isNaN_mul_finite hm s' m' e' hm'
    rw [← hten] at hdiv hmul
    dsimp only
    split
    · exact isNaN_pack hdiv
    · exact isNaN_pack hmul
  · exact isNaN_pack (isNaN_scientific ..)

theorem isNaN_ofDecimal (digits : Nat) (exponent : Int) :
    (Number.ofDecimal digits exponent).isNaN = false := by
  unfold Number.ofDecimal
  split
  · decide +kernel
  · dsimp only
    split
    · decide +kernel
    · split
      · decide +kernel
      · exact isNaN_ofScientific ..

/-! ### Tokens -/

def Token.Kind.Present (k : Token.Kind) : Prop := ∀ x, k = .number x → x.isNaN = false

def Token.Piece.Present : Token.Piece → Prop
  | .gap => True
  | .token kind => kind.Present

namespace Token

@[simp] theorem present_symbol (s : Symbol) : (Kind.symbol s).Present := fun _ h => nomatch h

@[simp] theorem present_keyword (k : Keyword) : (Kind.keyword k).Present := fun _ h => nomatch h

@[simp] theorem present_text (s : String) : (Kind.text s).Present := fun _ h => nomatch h

@[simp] theorem present_dataLines (body : String) : (Kind.dataLines body).Present :=
  fun _ h => nomatch h

@[simp] theorem present_number (whole fraction : List Char) :
    (Kind.number (Number.ofDigits whole fraction 0)).Present := by
  rintro _ ⟨⟩
  exact isNaN_ofDecimal ..

@[simp] theorem present_numeral (c : Char) (cs : List Char) : (numeral c cs).1.Present := by
  unfold numeral
  dsimp only
  split
  · exact present_number _ _
  · split <;> exact present_number _ _

@[simp] theorem present_pair {second : Char} {long short : Kind} (hl : long.Present)
    (hs : short.Present) (cs : List Char) : (pair second long short cs).1.Present := by
  unfold pair
  split
  · split
    · exact hl
    · exact hs
  · exact hs

@[simp] theorem present_macroReference (cs : List Char) : (macroReference cs).1.Present := by
  unfold macroReference
  dsimp only
  split <;> exact fun _ h => nomatch h

theorem present_of_lookup {table : List (String × Kind)} {word : String} {kind : Kind}
    (ht : table.all fun p => !p.2 matches .number _) (h : table.lookup word = some kind) :
    kind.Present := by
  obtain ⟨before, after, rfl, -⟩ := List.lookup_eq_some_iff.mp h
  rintro x rfl
  simp at ht

theorem present_ofWord? {word : String} {kind : Kind} (h : Kind.ofWord? word = some kind) :
    kind.Present :=
  present_of_lookup (by decide) h

theorem present_ofMacroWord? {word : String} {kind : Kind}
    (h : Kind.ofMacroWord? word = some kind) : kind.Present :=
  present_of_lookup (by decide) h

@[simp] theorem present_word (c : Char) (cs : List Char) : (word c cs).1.Present := by
  unfold word
  dsimp only
  split
  · split <;> exact present_keyword _
  · rename_i hkind
    exact present_ofWord? hkind
  · exact fun _ h => nomatch h

theorem present_piece {atStart : Bool} {c : Char} {cs : List Char} {p : Piece} {n : Nat}
    (h : piece atStart c cs = .ok (p, n)) : p.Present := by
  unfold piece at h
  dsimp only at h
  split at h
  all_goals (repeat' split at h) <;> cases h
  all_goals try simp [Piece.Present]
  rename_i hword
  exact present_ofMacroWord? hword

theorem present_scanFrom {atStart dataFollow : Bool} {pos : Position} {cs : List Char}
    {tokens : List Token} (h : scanFrom atStart dataFollow pos cs = .ok tokens) :
    ∀ t ∈ tokens, t.kind.Present := by
  fun_induction scanFrom atStart dataFollow pos cs generalizing tokens with
  | case1 =>
    cases h
    exact List.forall_mem_singleton.mpr fun _ h => nomatch h
  | case2 => cases h
  | case3 =>
    rename_i ih
    exact ih h
  | case4 =>
    rename_i hpiece _ _ _ _ _ _ _ _ _ _ _ _ ih
    generalize hrest : scanFrom _ _ _ _ = r at h
    cases r with
    | error e => cases h
    | ok rest =>
      cases h
      refine List.forall_mem_cons.mpr ⟨present_piece hpiece, ?_⟩
      refine List.forall_mem_cons.mpr ⟨present_dataLines _, ?_⟩
      exact List.forall_mem_cons.mpr ⟨present_symbol _, ih hrest⟩
  | case5 =>
    rename_i hpiece _ _ _ _ _ _ ih
    generalize hrest : scanFrom _ _ _ _ = r at h
    cases r with
    | error e => cases h
    | ok rest =>
      cases h
      exact List.forall_mem_cons.mpr ⟨present_piece hpiece, ih hrest⟩

/-- No token of a scanned program is the missing number. -/
theorem present_scan {source : String} {tokens : List Token} (h : scan source = .ok tokens) :
    ∀ t ∈ tokens, t.kind.Present :=
  present_scanFrom h

end Token

end StepLang
