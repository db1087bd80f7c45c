import StepLang.Json.Reader
import StepLang.Json.Writer

/-! # Strings and numbers of JSON texts

A string reads back as it was written, whatever its characters. A number is read alike whatever
stands behind it, as long as that does not go on with a number.
-/

namespace StepLang.Json

/-! ### Strings -/

theorem hexDigit?_hexText {n : Nat} (h : n < 16) : hexDigit? (hexText n) = some n := by
  revert n
  decide

theorem hexText_ne {n : Nat} (h : n < 16) : hexText n ≠ '"' ∧ hexText n ≠ '\\' := by
  revert n
  decide

theorem readHex_control {n : Nat} (h : n < 0x20) (rest : List Char) :
    readHex ('0' :: '0' :: hexText (n / 16) :: hexText (n % 16) :: rest) = some (n, rest) := by
  have hzero : hexDigit? '0' = some 0 := by decide
  have hn : (0 * 16 + 0) * 256 + n / 16 * 16 + n % 16 = n := by omega
  simp only [readHex, hzero, hexDigit?_hexText (show n / 16 < 16 by omega),
    hexDigit?_hexText (show n % 16 < 16 by omega), Option.bind_eq_bind, Option.bind_some, hn]
  rfl

theorem readUnicode_control {c : Char} (h : c.toNat < 0x20) (rest : List Char) :
    readUnicode ('0' :: '0' :: hexText (c.toNat / 16) :: hexText (c.toNat % 16) :: rest) =
      some (some c, rest) := by
  have hhigh : isHighSurrogate c.toNat = false := by
    simp only [isHighSurrogate, Bool.and_eq_false_iff, decide_eq_false_iff_not]
    omega
  have hlow : isLowSurrogate c.toNat = false := by
    simp only [isLowSurrogate, Bool.and_eq_false_iff, decide_eq_false_iff_not]
    omega
  simp only [readUnicode, readHex_control h, Option.bind_eq_bind, Option.bind_some, hhigh, hlow,
    Bool.false_eq_true, if_false, Char.ofNat_toNat]
  rfl

theorem escape_cases (c : Char) :
    (∃ d, escape c = ['\\', d] ∧ ∀ cs, readEscape (d :: cs) = some (some c, cs)) ∨
      (c.toNat < 0x20 ∧ escape c =
        ['\\', 'u', '0', '0', hexText (c.toNat / 16), hexText (c.toNat % 16)]) ∨
      c ≠ '"' ∧ c ≠ '\\' ∧ ¬ c.toNat < 0x20 ∧ escape c = [c] := by
  unfold escape
  split
  case h_8 hquote hbackslash _ _ _ _ _ =>
    split
    · exact .inr (.inl ⟨‹_›, rfl⟩)
    · exact .inr (.inr ⟨hquote, hbackslash, ‹_›, rfl⟩)
  all_goals exact .inl ⟨_, rfl, fun _ => rfl⟩

theorem readChars_escape (bound : Nat) (c : Char) (cs : List Char) (acc : List (Option Char)) :
    readChars (bound + 1) (escape c ++ cs) acc = readChars bound cs (some c :: acc) := by
  rcases escape_cases c with ⟨d, he, hread⟩ | ⟨h, he⟩ | ⟨-, hbackslash, h, he⟩
  · simp only [he, List.cons_append, List.nil_append, readChars, if_true, hread,
      Option.bind_eq_bind, Option.bind_some]
  · have hread : readEscape ('u' :: '0' :: '0' :: hexText (c.toNat / 16) ::
        hexText (c.toNat % 16) :: cs) = some (some c, cs) := readUnicode_control h cs
    simp only [he, List.cons_append, List.nil_append, readChars, if_true, hread,
      Option.bind_eq_bind, Option.bind_some]
  · rw [he, List.cons_append, List.nil_append, readChars, if_neg hbackslash, if_neg h]

theorem readChars_flatMap {cs : List Char} {bound : Nat} (h : cs.length ≤ bound)
    (acc : List (Option Char)) :
    readChars bound (cs.flatMap escape) acc = some ((cs.map some).reverse ++ acc) := by
  induction cs generalizing bound acc with
  | nil => cases bound <;> rfl
  | cons c cs ih =>
    cases bound with
    | zero => cases h
    | succ bound =>
      rw [List.flatMap_cons, readChars_escape, ih (Nat.le_of_succ_le_succ h), List.map_cons,
        List.reverse_cons, List.append_assoc]
      rfl

theorem stringLength?_cons {c : Char} (hquote : c ≠ '"') (hbackslash : c ≠ '\\')
    (cs : List Char) : stringLength? (c :: cs) = (stringLength? cs).map (· + 1) := by
  rw [stringLength?]
  · exact fun h => hquote h
  · exact fun _ _ h _ => hbackslash h

theorem stringLength?_escape (c : Char) (cs : List Char) :
    stringLength? (escape c ++ cs) = (stringLength? cs).map (· + (escape c).length) := by
  have hpair (d : Char) (cs : List Char) :
      stringLength? ('\\' :: d :: cs) = (stringLength? cs).map (· + 2) := by
    rw [stringLength?]
  rcases escape_cases c with ⟨d, he, -⟩ | ⟨h, he⟩ | ⟨hquote, hbackslash, -, he⟩
  · rw [he]
    exact hpair d cs
  · -- The length looks at the backslash and the next character only, the digits come one by one.
    obtain ⟨hquote, hbackslash⟩ := hexText_ne (show c.toNat / 16 < 16 by omega)
    obtain ⟨hquote', hbackslash'⟩ := hexText_ne (show c.toNat % 16 < 16 by omega)
    simp only [he, List.cons_append, List.nil_append]
    rw [hpair, stringLength?_cons (by decide) (by decide),
      stringLength?_cons (by decide) (by decide), stringLength?_cons hquote hbackslash,
      stringLength?_cons hquote' hbackslash']
    cases stringLength? cs <;> rfl
  · rw [he]
    exact stringLength?_cons hquote hbackslash cs

theorem stringLength?_flatMap (cs rest : List Char) :
    stringLength? (cs.flatMap escape ++ '"' :: rest) = some (cs.flatMap escape).length := by
  induction cs with
  | nil => rfl
  | cons c cs ih =>
    rw [List.flatMap_cons, List.append_assoc, stringLength?_escape, ih, Option.map_some,
      List.length_append, Nat.add_comm]

theorem length_le_flatMap_escape (cs : List Char) : cs.length ≤ (cs.flatMap escape).length := by
  induction cs with
  | nil => exact Nat.zero_le _
  | cons c cs ih =>
    have hne : escape c ≠ [] := by
      rcases escape_cases c with ⟨d, he, -⟩ | ⟨-, he⟩ | ⟨-, -, -, he⟩ <;> simp [he]
    have := List.length_pos_iff.mpr hne
    rw [List.flatMap_cons, List.length_append, List.length_cons]
    omega

theorem mapM_id_some (cs : List Char) : (cs.map some).mapM id = some cs := by
  induction cs with
  | nil => rfl
  | cons c cs ih => simp [ih]

/-- A string reads back as it was written. -/
theorem readString_quote (s : String) (rest : List Char) :
    readString (s.toList.flatMap escape ++ '"' :: rest) = some (some s, rest) := by
  have hdrop :
      (s.toList.flatMap escape ++ '"' :: rest).drop ((s.toList.flatMap escape).length + 1) =
        rest := by
    rw [List.append_cons]
    exact List.drop_left' (by rw [List.length_append]; rfl)
  unfold readString
  rw [stringLength?_flatMap, Option.bind_eq_bind, Option.bind_some, List.take_left,
    readChars_flatMap (length_le_flatMap_escape _), Option.bind_eq_bind, Option.bind_some,
    List.append_nil, List.reverse_reverse, mapM_id_some, Option.map_some, String.ofList_toList,
    hdrop]
  rfl

theorem toList_quote (s : String) :
    (quote s).toList = '"' :: s.toList.flatMap escape ++ ['"'] := by
  simp [quote]

/-! ### Numbers -/

/-- The text does not go on with a number. -/
def Stops (rest : List Char) : Prop :=
  ∀ c ∈ rest.head?, c.isDigit = false ∧ c ≠ '.' ∧ c ≠ 'e' ∧ c ≠ 'E'

theorem Stops.nil : Stops [] := by
  rintro _ ⟨⟩

theorem Stops.cons {c : Char} (h : c.isDigit = false ∧ c ≠ '.' ∧ c ≠ 'e' ∧ c ≠ 'E')
    (rest : List Char) : Stops (c :: rest) := by
  rintro _ ⟨⟩
  exact h

def readFraction : List Char → Option (Option (List Char) × List Char)
  | '.' :: rest => (readDigits rest).map fun (digits, rest) => (some digits, rest)
  | cs => some (none, cs)

def readUnsigned (negative : Bool) (cs : List Char) : Option (Document × List Char) := do
  let (whole, cs) ← readWhole cs
  let (fraction, cs) ← readFraction cs
  let (power, cs) ← readPower cs
  return (numberOf negative whole fraction power, cs)

theorem readFraction_of_not {cs : List Char} (h : ∀ rest, cs = '.' :: rest → False) :
    readFraction cs = some (none, cs) := by
  rw [readFraction]
  exact h

theorem readFraction_of_ne {c : Char} (h : c ≠ '.') (cs : List Char) :
    readFraction (c :: cs) = some (none, c :: cs) := by
  apply readFraction_of_not
  rintro _ ⟨⟩
  exact h rfl

-- `readNumber` has matches of its own for the sign and the point; these two lemmas give it the
-- readers of this section instead.
theorem readNumber_minus (cs : List Char) : readNumber ('-' :: cs) = readUnsigned true cs := by
  change (readWhole cs).bind _ = (readWhole cs).bind _
  congr 1
  funext ⟨whole, rest⟩
  dsimp only
  split
  · rfl
  · rw [readFraction_of_not ‹_›]
    rfl

theorem readNumber_of_ne {c : Char} (h : c ≠ '-') (cs : List Char) :
    readNumber (c :: cs) = readUnsigned false (c :: cs) := by
  unfold readNumber
  split
  next heq =>
    split at heq
    · next hcs =>
      cases hcs
      exact absurd rfl h
    · cases heq
      change (readWhole (c :: cs)).bind _ = (readWhole (c :: cs)).bind _
      congr 1
      funext ⟨whole, rest⟩
      dsimp only
      split
      · rfl
      · rw [readFraction_of_not ‹_›]

section

variable {cs more rest : List Char} (hr : Stops rest)
include hr

theorem takeWhile_digits_append :
    (cs ++ rest).takeWhile Char.isDigit = cs.takeWhile Char.isDigit := by
  induction cs with
  | nil =>
    cases rest with
    | nil => rfl
    | cons c rest => exact List.takeWhile_cons_of_neg (by simp [(hr c rfl).1])
  | cons c cs ih => simp only [List.cons_append, List.takeWhile_cons, ih]

theorem dropWhile_digits_append :
    (cs ++ rest).dropWhile Char.isDigit = cs.dropWhile Char.isDigit ++ rest := by
  induction cs with
  | nil =>
    cases rest with
    | nil => rfl
    | cons c rest => exact List.dropWhile_cons_of_neg (by simp [(hr c rfl).1])
  | cons c cs ih =>
    simp only [List.cons_append, List.dropWhile_cons, ih]
    split <;> rfl

theorem readDigits_append {digits : List Char} (h : readDigits cs = some (digits, more)) :
    readDigits (cs ++ rest) = some (digits, more ++ rest) := by
  unfold readDigits at h ⊢
  rw [takeWhile_digits_append hr, dropWhile_digits_append hr]
  dsimp only at h ⊢
  split at h
  · cases h
  · cases h
    rw [if_neg ‹_›]

theorem readWhole_append {digits : List Char} (h : readWhole cs = some (digits, more)) :
    readWhole (cs ++ rest) = some (digits, more ++ rest) := by
  unfold readWhole at h
  split at h
  · next cs =>
    split at h
    · next c cs =>
      split at h
      · cases h
      · cases h
        exact if_neg ‹_›
    · cases h
      cases rest with
      | nil => rfl
      | cons c rest => exact if_neg (by simp [(hr c rfl).1])
  · next hzero =>
    have hdigits := readDigits_append hr h
    cases cs with
    | nil => cases h
    | cons c cs =>
      rw [List.cons_append, readWhole]
      · exact hdigits
      · rintro cs' ⟨⟩
        exact hzero cs rfl

omit hr in
theorem splitSign_append (hne : cs ≠ []) :
    Number.splitSign (cs ++ rest) =
      ((Number.splitSign cs).1, (Number.splitSign cs).2 ++ rest) := by
  cases cs with
  | nil => exact absurd rfl hne
  | cons c cs =>
    by_cases hminus : c = '-'
    · rw [hminus]
      rfl
    · by_cases hplus : c = '+'
      · rw [hplus]
        rfl
      · have hunsigned (tail : List Char) : Number.splitSign (c :: tail) = (false, c :: tail) := by
          rw [Number.splitSign]
          · rintro _ ⟨⟩
            exact hminus rfl
          · rintro _ ⟨⟩
            exact hplus rfl
        rw [List.cons_append, hunsigned, hunsigned]
        rfl

theorem readPower_append {power : Option Int} (h : readPower cs = some (power, more)) :
    readPower (cs ++ rest) = some (power, more ++ rest) := by
  cases cs with
  | nil =>
    cases h
    cases rest with
    | nil => rfl
    | cons c rest =>
      obtain ⟨-, -, he, hE⟩ := hr c rfl
      exact if_neg (by simp [he, hE])
  | cons c cs =>
    rw [List.cons_append]
    unfold readPower at h ⊢
    dsimp only at h ⊢
    split at h
    · rw [if_pos ‹_›]
      cases cs with
      | nil => cases h
      | cons c' cs =>
        rw [splitSign_append (List.cons_ne_nil _ _)]
        simp only [Option.bind_eq_bind, Option.bind_eq_some_iff, Prod.exists] at h ⊢
        obtain ⟨digits, more', hdigits, heq⟩ := h
        cases heq
        exact ⟨digits, _, readDigits_append hr hdigits, rfl⟩
    · cases h
      rw [if_neg ‹_›]
      rfl

theorem readFraction_append {fraction : Option (List Char)}
    (h : readFraction cs = some (fraction, more)) :
    readFraction (cs ++ rest) = some (fraction, more ++ rest) := by
  cases cs with
  | nil =>
    cases h
    cases rest with
    | nil => rfl
    | cons c rest => exact readFraction_of_ne (hr c rfl).2.1 rest
  | cons c cs =>
    by_cases hpoint : c = '.'
    · subst hpoint
      obtain ⟨⟨digits, more'⟩, hdigits, heq⟩ := Option.map_eq_some_iff.mp h
      cases heq
      exact Option.map_eq_some_iff.mpr ⟨_, readDigits_append hr hdigits, rfl⟩
    · rw [readFraction_of_ne hpoint] at h
      cases h
      exact readFraction_of_ne hpoint _

theorem readUnsigned_append {negative : Bool} {d : Document}
    (h : readUnsigned negative cs = some (d, more)) :
    readUnsigned negative (cs ++ rest) = some (d, more ++ rest) := by
  unfold readUnsigned at h ⊢
  simp only [Option.bind_eq_bind, Option.bind_eq_some_iff, Prod.exists] at h ⊢
  obtain ⟨whole, cs₁, hwhole, fraction, cs₂, hfraction, power, cs₃, hpower, heq⟩ := h
  cases heq
  exact ⟨whole, _, readWhole_append hr hwhole, fraction, _, readFraction_append hr hfraction,
    power, _, readPower_append hr hpower, rfl⟩

theorem readNumber_append {d : Document} (h : readNumber cs = some (d, more)) :
    readNumber (cs ++ rest) = some (d, more ++ rest) := by
  cases cs with
  | nil => cases h
  | cons c cs =>
    by_cases hminus : c = '-'
    · subst hminus
      rw [readNumber_minus] at h
      exact (readNumber_minus _).trans (readUnsigned_append hr h)
    · rw [readNumber_of_ne hminus] at h
      exact (readNumber_of_ne hminus _).trans (readUnsigned_append hr h)

end

theorem exists_of_readNumber {cs more : List Char} {d : Document}
    (h : readNumber cs = some (d, more)) :
    ∃ c tail, cs = c :: tail ∧ (c = '-' ∨ c.isDigit = true) := by
  cases cs with
  | nil => cases h
  | cons c cs =>
    refine ⟨c, cs, rfl, ?_⟩
    by_cases hminus : c = '-'
    · exact .inl hminus
    · rw [readNumber_of_ne hminus, readUnsigned, Option.bind_eq_bind, Option.bind_eq_some_iff] at h
      obtain ⟨whole, hwhole, -⟩ := h
      right
      unfold readWhole at hwhole
      split at hwhole
      · next heq =>
        cases heq
        rfl
      · unfold readDigits at hwhole
        cases hdigit : c.isDigit with
        | true => rfl
        | false => simp [hdigit] at hwhole

end StepLang.Json
