import Mathlib.Algebra.Group.Nat.Defs
import Mathlib.Data.Bool.Basic
import Mathlib.Data.List.DropRight
import Mathlib.Data.List.Nodup
import StepLang.Parser.Expression
import StepLang.Proofs.Text.Letters
import StepLang.Proofs.Token.Numerals

/-! # Numbered names

A name that ends in digits is a stem and a number. The names of a numbered range are written anew
from the stem of the first one and a number each, which changes nothing but zeros in front of the
numbers. Lists of names and the arguments of a call take the names of a range apart in ways of their
own and come to the same names.
-/

namespace StepLang

variable {digits : List Char}

/-! ### Digits and numbers -/

namespace Number

/-- The digits without the zeros in front of them; of zeros only the last one is left. -/
def plainDigits (digits : List Char) : List Char :=
  match digits.dropWhile (· == '0') with
  | [] => ['0']
  | c :: cs => c :: cs

theorem digitsValue_eq (digits : List Char) :
    digitsValue digits = Nat.ofDigitChars 10 digits 0 := by
  rw [Nat.ofDigitChars_eq_foldl]
  simp only [digitsValue, Nat.mul_comm]

theorem digit_bounds {c : Char} (h : c.isDigit = true) :
    '0'.toNat ≤ c.toNat ∧ c.toNat - '0'.toNat < 10 := by
  obtain ⟨hlow, hhigh⟩ := Char.isDigit_iff_toNat.mp h
  have hzero : '0'.toNat = 48 := rfl
  have hnine : '9'.toNat = 57 := rfl
  omega

theorem toDigits_digit {c : Char} (h : c.isDigit = true) :
    Nat.toDigits 10 (c.toNat - '0'.toNat) = [c] := by
  obtain ⟨hlow, hten⟩ := digit_bounds h
  rw [Nat.toDigits_of_lt_base hten]
  have hchar : (Nat.digitChar (c.toNat - '0'.toNat)).toNat = c.toNat := by
    rw [Nat.toNat_digitChar_of_lt_ten hten]
    have hzero : '0'.toNat = 48 := rfl
    omega
  rw [Char.toNat_inj.mp hchar]

/-- Digits behind those of a positive number are those of the number that goes on with them. -/
theorem toDigits_append {n : Nat} (hn : 0 < n) (h : ∀ c ∈ digits, c.isDigit = true) :
    Nat.toDigits 10 n ++ digits = Nat.toDigits 10 (Nat.ofDigitChars 10 digits n) := by
  induction digits generalizing n with
  | nil => rw [List.append_nil, Nat.ofDigitChars_nil]
  | cons c cs ih =>
    obtain ⟨hc, hcs⟩ := List.forall_mem_cons.mp h
    obtain ⟨-, hten⟩ := digit_bounds hc
    calc Nat.toDigits 10 n ++ c :: cs
        = Nat.toDigits 10 n ++ [c] ++ cs := by simp
      _ = Nat.toDigits 10 (10 * n + (c.toNat - '0'.toNat)) ++ cs := by
        rw [← toDigits_digit hc, Nat.toDigits_append_toDigits (by decide) hn hten]
      _ = Nat.toDigits 10 (Nat.ofDigitChars 10 (c :: cs) n) := by
        rw [ih (by omega) hcs, Nat.ofDigitChars_cons]

/-- A number that was read from digits is written with the same digits but the zeros in front. -/
theorem toDigits_digitsValue (h : ∀ c ∈ digits, c.isDigit = true) :
    Nat.toDigits 10 (digitsValue digits) = plainDigits digits := by
  rw [digitsValue_eq]
  induction digits with
  | nil => rfl
  | cons c cs ih =>
    obtain ⟨hc, hcs⟩ := List.forall_mem_cons.mp h
    rw [Nat.ofDigitChars_cons, Nat.mul_zero, Nat.zero_add]
    by_cases hzero : c = '0'
    · subst hzero
      rw [plainDigits, List.dropWhile_cons_of_pos (by simp)]
      exact ih hcs
    · have hpos : 0 < c.toNat - '0'.toNat := by
        obtain ⟨hlow, -⟩ := digit_bounds hc
        have hne : c.toNat ≠ '0'.toNat := fun h => hzero (Char.toNat_inj.mp h)
        omega
      rw [← toDigits_append hpos hcs, toDigits_digit hc, plainDigits,
        List.dropWhile_cons_of_neg (by simpa using hzero)]
      rfl

theorem plainDigits_eq_self_iff (hne : digits ≠ []) :
    plainDigits digits = digits ↔ digits = ['0'] ∨ digits.head? ≠ some '0' := by
  obtain ⟨c, cs, rfl⟩ := List.exists_cons_of_ne_nil hne
  by_cases hzero : c = '0'
  · subst hzero
    rw [plainDigits, List.dropWhile_cons_of_pos (by simp)]
    have hlength := (List.dropWhile_suffix (l := cs) (· == '0')).length_le
    cases hdrop : cs.dropWhile (· == '0') with
    | nil => simp [eq_comm]
    | cons d ds =>
      have hlt : (d :: ds).length < ('0' :: cs).length := by
        rw [hdrop] at hlength
        exact Nat.lt_succ_of_le hlength
      refine iff_of_false (fun h => absurd (congrArg List.length h) (Nat.ne_of_lt hlt)) ?_
      rintro (h | h)
      · obtain rfl : cs = [] := by simpa using h
        cases hdrop
      · exact h rfl
  · rw [plainDigits, List.dropWhile_cons_of_neg (by simpa using hzero)]
    simp [hzero]

theorem readCount?_digits (hne : digits ≠ []) (h : ∀ c ∈ digits, c.isDigit = true) :
    readCount? (String.ofList digits) =
      if digitsValue digits < 2 ^ 64 then some (digitsValue digits) else none := by
  obtain ⟨c, cs, rfl⟩ := List.exists_cons_of_ne_nil hne
  have hsign : c ≠ '+' := by
    rintro rfl
    cases h '+' List.mem_cons_self
  have hall : (c :: cs).all Char.isDigit = true := List.all_eq_true.mpr h
  have hbound : (digitsValue (c :: cs) : Int) ≤ Bounds.count64.high ↔
      digitsValue (c :: cs) < 2 ^ 64 := by
    simp only [Bounds.count64]
    omega
  unfold readCount?
  simp only [String.toList_ofList]
  split
  · rename_i heq
    exact absurd (List.cons.inj heq).1 hsign
  · simp only [hall, List.isEmpty_cons, Bool.not_true, Bool.or_false, Bool.false_eq_true, if_false,
      hbound]

end Number

/-! ### Names with a number at the end -/

/-- A name that ends in digits: the longest run of them, and the stem in front of it. -/
structure NumberedName where
  stem : List Char
  digits : List Char
  stem_ne_nil : stem ≠ []
  isDigit_stem : ∀ c ∈ stem.getLast?, c.isDigit = false
  digits_ne_nil : digits ≠ []
  isDigit : ∀ c ∈ digits, c.isDigit = true

namespace NumberedName

variable {x y : NumberedName} {i j : Nat}

def text (x : NumberedName) : String := String.ofList (x.stem ++ x.digits)

def stemText (x : NumberedName) : String := String.ofList x.stem

def number (x : NumberedName) : Nat := Number.digitsValue x.digits

/-- The number has a zero in front of other digits. -/
def IsPadded (x : NumberedName) : Prop := x.digits.head? = some '0' ∧ x.digits ≠ ['0']

/-- The stem with another number, which is written without a zero in front. -/
def renumber (x : NumberedName) (i : Nat) : NumberedName where
  stem := x.stem
  digits := Nat.toDigits 10 i
  stem_ne_nil := x.stem_ne_nil
  isDigit_stem := x.isDigit_stem
  digits_ne_nil := Nat.toDigits_ne_nil
  isDigit _ hc := Nat.isDigit_of_mem_toDigits (by decide) (by decide) hc

/-- The names of the stem with the numbers from its own to another one. -/
def upTo (x : NumberedName) (last : Nat) : List String :=
  (List.range' x.number (last + 1 - x.number)).map fun i => (x.renumber i).text

theorem text_renumber (x : NumberedName) (i : Nat) :
    (x.renumber i).text = x.stemText ++ toString i := by
  rw [text, String.ofList_append, Nat.toString_eq_ofList_toDigits]
  rfl

theorem number_renumber (x : NumberedName) (i : Nat) : (x.renumber i).number = i := by
  rw [number, Number.digitsValue_eq]
  exact Nat.ofDigitChars_ten_toDigits

theorem digits_renumber_number (x : NumberedName) :
    (x.renumber x.number).digits = x.digits ↔ ¬ x.IsPadded := by
  change Nat.toDigits 10 (Number.digitsValue x.digits) = x.digits ↔ _
  rw [Number.toDigits_digitsValue x.isDigit, Number.plainDigits_eq_self_iff x.digits_ne_nil,
    IsPadded]
  tauto

theorem text_renumber_number (x : NumberedName) :
    (x.renumber x.number).text = x.text ↔ ¬ x.IsPadded := by
  rw [← x.digits_renumber_number, text, text, String.ofList_inj]
  exact List.append_right_inj x.stem

/-! ### Names without regard to the case of letters -/

theorem map_toUpper_digits {digits : List Char} (h : ∀ c ∈ digits, c.isDigit = true) :
    digits.map Char.toUpper = digits := by
  refine (List.map_congr_left fun c hc => ?_).trans (List.map_id digits)
  obtain ⟨-, hten⟩ := Number.digit_bounds (h c hc)
  have hzero : '0'.toNat = 48 := rfl
  apply Text.toUpper_eq_self
  rw [Text.isLower_eq_false_iff]
  omega

theorem upper_text (x : NumberedName) :
    (Text.upper x.text).toList = x.stem.map Char.toUpper ++ x.digits := by
  rw [Text.upper, String.toList_map, text, String.toList_ofList, List.map_append,
    map_toUpper_digits x.isDigit]

theorem sameName_text (h : Text.sameName x.stemText y.stemText = true) :
    Text.sameName x.text y.text = true ↔ x.digits = y.digits := by
  have hstem : x.stem.map Char.toUpper = y.stem.map Char.toUpper := by
    have hlist := congrArg String.toList (Text.sameName_iff.mp h)
    simpa only [Text.upper, String.toList_map, stemText, String.toList_ofList] using hlist
  rw [Text.sameName_iff, ← String.toList_inj, upper_text, upper_text, hstem]
  exact List.append_right_inj _

theorem upper_renumber_inj :
    Text.upper (x.renumber i).text = Text.upper (x.renumber j).text ↔ i = j := by
  constructor
  · intro h
    rw [← String.toList_inj, upper_text, upper_text] at h
    have hdigits : Nat.toDigits 10 i = Nat.toDigits 10 j := List.append_cancel_left h
    rw [← x.number_renumber i, ← x.number_renumber j, number, number]
    exact congrArg Number.digitsValue hdigits
  · rintro rfl
    rfl

/-! ### The names of a range -/

variable {last : Nat}

theorem length_upTo (h : x.number ≤ last) : (x.upTo last).length = last - x.number + 1 := by
  rw [upTo, List.length_map, List.length_range']
  omega

theorem nodup_upTo (x : NumberedName) (last : Nat) : ((x.upTo last).map Text.upper).Nodup := by
  rw [upTo, List.map_map]
  exact List.Nodup.map (fun i j h => upper_renumber_inj.mp h) (List.nodup_range' 1)

theorem getElem?_upTo {name : String} (h : (x.upTo last)[i]? = some name) :
    name = (x.renumber (x.number + i)).text := by
  rw [upTo, List.getElem?_map, Option.map_eq_some_iff] at h
  obtain ⟨j, hj, rfl⟩ := h
  obtain ⟨hi, rfl⟩ := List.getElem?_eq_some_iff.mp hj
  rw [List.getElem_range', Nat.one_mul]

theorem head?_upTo (h : x.number ≤ last) :
    (x.upTo last).head? = some (x.renumber x.number).text := by
  rw [upTo, List.head?_map, List.head?_range', if_neg (by omega)]
  rfl

theorem getLast?_upTo (h : x.number ≤ last) :
    (x.upTo last).getLast? = some (x.renumber last).text := by
  have hlast : x.number + (last + 1 - x.number) - 1 = last := by omega
  rw [upTo, List.getLast?_map, List.getLast?_range', if_neg (by omega), hlast]
  rfl

/-- The range begins with its first name as it is written, unless the number there is padded. -/
theorem head?_upTo_iff (h : x.number ≤ last) :
    (x.upTo last).head? = some x.text ↔ ¬ x.IsPadded := by
  rw [head?_upTo h, Option.some_inj, text_renumber_number]

/-- The range ends with its last name in some case of letters, unless the number there is padded. -/
theorem getLast?_upTo_iff (h : x.number ≤ y.number)
    (hstem : Text.sameName x.stemText y.stemText = true) :
    (∃ name ∈ (x.upTo y.number).getLast?, Text.sameName name y.text = true) ↔ ¬ y.IsPadded := by
  rw [getLast?_upTo h, ← y.digits_renumber_number]
  simp only [Option.mem_some, exists_eq_left']
  exact @sameName_text (x.renumber y.number) y hstem

/-- The names of a range from one numbered name to another: those with the stem of the first and the
numbers between them, none of them twice in any case of letters. The range begins and ends with the
names that it is written with unless their numbers are padded. -/
structure Spans (x y : NumberedName) (names : List String) : Prop where
  le : x.number ≤ y.number
  length : names.length = y.number - x.number + 1
  nodup : (names.map Text.upper).Nodup
  numbered : ∀ i name, names[i]? = some name →
    ∃ z : NumberedName, z.text = name ∧ z.stem = x.stem ∧ z.number = x.number + i
  begins : names.head? = some x.text ↔ ¬ x.IsPadded
  ends : (∃ name ∈ names.getLast?, Text.sameName name y.text = true) ↔ ¬ y.IsPadded

theorem spans_upTo (h : x.number ≤ y.number)
    (hstem : Text.sameName x.stemText y.stemText = true) : Spans x y (x.upTo y.number) where
  le := h
  length := length_upTo h
  nodup := nodup_upTo x y.number
  numbered i _ hname :=
    ⟨x.renumber (x.number + i), (getElem?_upTo hname).symm, rfl, number_renumber x _⟩
  begins := head?_upTo_iff h
  ends := getLast?_upTo_iff h hstem

end NumberedName

namespace Parser

open NumberedName

variable {name first last : String}

/-! ### Names taken apart -/

theorem splitDigits?_eq (name : String) : splitDigits? name =
    (Number.readCount? (String.ofList (name.toList.rtakeWhile Char.isDigit))).map
      (String.ofList (name.toList.rdropWhile Char.isDigit), ·) := by
  have hsplit := @List.rdropWhile_append_rtakeWhile _ Char.isDigit name.toList
  have hlength := congrArg List.length hsplit
  rw [List.length_append, String.length_toList] at hlength
  have hstem : name.toList.take (name.length - (name.toList.rtakeWhile Char.isDigit).length) =
      name.toList.rdropWhile Char.isDigit := by
    have htake := @List.take_left _ (name.toList.rdropWhile Char.isDigit)
      (name.toList.rtakeWhile Char.isDigit)
    rw [← hlength, Nat.add_sub_cancel]
    rwa [hsplit] at htake
  rw [← hstem]
  rfl

theorem isEmpty_ofList (cs : List Char) : (String.ofList cs).isEmpty = cs.isEmpty := by
  rw [Bool.eq_iff_iff, String.isEmpty_iff, List.isEmpty_iff, String.ofList_eq_empty_iff]

/-- Lists of names ask for a stem where the arguments of a call do not. -/
theorem splitNumbered?_eq (name : String) :
    splitNumbered? name = (splitDigits? name).filter fun part => !part.1.isEmpty := by
  unfold splitNumbered? splitDigits?
  dsimp only
  generalize (name.toList.reverse.takeWhile Char.isDigit).reverse = digits
  generalize name.toList.take (name.length - digits.length) = stem
  cases digits with
  | nil => rfl
  | cons c cs =>
    cases Number.readCount? (String.ofList (c :: cs)) with
    | none => simp
    | some n => simp [Option.filter_some, isEmpty_ofList]

theorem splitDigits?_text (x : NumberedName) : splitDigits? x.text =
    if x.number < 2 ^ 64 then some (x.stemText, x.number) else none := by
  have hreverse : x.text.toList.reverse = x.digits.reverse ++ x.stem.reverse := by
    rw [text, String.toList_ofList, List.reverse_append]
  have hstem : ∀ c ∈ x.stem.reverse.head?, c.isDigit = false := by
    rw [List.head?_reverse]
    exact x.isDigit_stem
  obtain ⟨htake, hdrop⟩ := Token.Numeral.takeWhile_digits
    (fun c hc => x.isDigit c (List.mem_reverse.mp hc)) hstem
  rw [splitDigits?_eq, List.rtakeWhile, List.rdropWhile, hreverse, htake, hdrop,
    List.reverse_reverse, List.reverse_reverse, Number.readCount?_digits x.digits_ne_nil x.isDigit]
  change Option.map _ (if x.number < 2 ^ 64 then some x.number else none) = _
  split
  · rfl
  · rfl

/-- What a name is taken apart into makes it a numbered name, if there is a stem. -/
theorem exists_of_splitDigits? {stem : String} {n : Nat} (h : splitDigits? name = some (stem, n))
    (hstem : stem ≠ "") : ∃ x : NumberedName, x.text = name := by
  rw [splitDigits?_eq, Option.map_eq_some_iff] at h
  obtain ⟨count, hcount, hpart⟩ := h
  obtain ⟨rfl, -⟩ := Prod.mk.inj hpart
  have hne : name.toList.rdropWhile Char.isDigit ≠ [] := by
    rwa [Ne, String.ofList_eq_empty_iff] at hstem
  refine ⟨⟨name.toList.rdropWhile Char.isDigit, name.toList.rtakeWhile Char.isDigit, hne, ?_, ?_,
    fun c hc => List.mem_rtakeWhile_imp hc⟩, ?_⟩
  · rw [List.getLast?_eq_some_getLast hne]
    rintro c ⟨⟩
    exact Bool.eq_false_of_not_eq_true (List.rdropWhile_last_not _ _ hne)
  · intro hnil
    rw [hnil] at hcount
    cases hcount
  · rw [text, List.rdropWhile_append_rtakeWhile, String.ofList_toList]

theorem stemText_ne_empty (x : NumberedName) : x.stemText ≠ "" := by
  rw [stemText, Ne, String.ofList_eq_empty_iff]
  exact x.stem_ne_nil

/-- A list of names takes exactly the numbered names apart, up to the bound on counts. -/
theorem splitNumbered?_eq_some_iff {stem : String} {n : Nat} :
    splitNumbered? name = some (stem, n) ↔
      ∃ x : NumberedName, x.text = name ∧ x.stemText = stem ∧ x.number = n ∧ n < 2 ^ 64 := by
  rw [splitNumbered?_eq, Option.filter_eq_some_iff, Bool.not_eq_true', Bool.eq_false_iff, Ne,
    String.isEmpty_iff]
  constructor
  · rintro ⟨hsplit, hstem⟩
    obtain ⟨x, rfl⟩ := exists_of_splitDigits? hsplit hstem
    rw [splitDigits?_text] at hsplit
    split at hsplit
    · rename_i hbound
      obtain ⟨rfl, rfl⟩ := Prod.mk.inj (Option.some.inj hsplit)
      exact ⟨x, rfl, rfl, rfl, hbound⟩
    · cases hsplit
  · rintro ⟨x, rfl, rfl, rfl, hbound⟩
    rw [splitDigits?_text, if_pos hbound]
    exact ⟨rfl, stemText_ne_empty x⟩

/-! ### Ranges -/

theorem numberedRange?_eq_some_iff {names : List String} :
    numberedRange? first last = some names ↔
      ∃ x y : NumberedName, x.text = first ∧ y.text = last ∧
        Text.sameName x.stemText y.stemText = true ∧ x.number ≤ y.number ∧ y.number < 2 ^ 64 ∧
        names = x.upTo y.number := by
  have hnames (x : NumberedName) (high : Nat) :
      (List.range' x.number (high + 1 - x.number)).map (fun i => x.stemText ++ toString i) =
        x.upTo high := by
    rw [upTo]
    simp only [text_renumber]
  constructor
  · intro h
    unfold numberedRange? at h
    split at h
    · rename_i stem low stem' high hfirst hlast
      obtain ⟨x, rfl, rfl, rfl, -⟩ := splitNumbered?_eq_some_iff.mp hfirst
      obtain ⟨y, rfl, rfl, rfl, hbound⟩ := splitNumbered?_eq_some_iff.mp hlast
      split at h
      · rename_i hrange
        rw [Bool.and_eq_true, decide_eq_true_iff] at hrange
        rw [hnames] at h
        exact ⟨x, y, rfl, rfl, hrange.1, hrange.2, hbound, (Option.some.inj h).symm⟩
      · cases h
    · cases h
  · rintro ⟨x, y, rfl, rfl, hstem, hle, hbound, rfl⟩
    have hfirst : splitNumbered? x.text = some (x.stemText, x.number) :=
      splitNumbered?_eq_some_iff.mpr ⟨x, rfl, rfl, rfl, Nat.lt_of_le_of_lt hle hbound⟩
    have hlast : splitNumbered? y.text = some (y.stemText, y.number) :=
      splitNumbered?_eq_some_iff.mpr ⟨y, rfl, rfl, rfl, hbound⟩
    unfold numberedRange?
    simp only [hfirst, hlast, hstem, hle, decide_true, Bool.and_self, if_true, hnames]

theorem isEmpty_of_sameName {a b : String} (h : Text.sameName a b = true) :
    a.isEmpty = b.isEmpty := by
  have hlength := congrArg String.length (Text.sameName_iff.mp h)
  rw [Text.length_upper, Text.length_upper] at hlength
  rw [Bool.eq_iff_iff, String.isEmpty_iff, String.isEmpty_iff, ← String.length_eq_zero_iff,
    ← String.length_eq_zero_iff, hlength]

/-- Behind `OF` a range stands for the names that it has in a list, and for its two names where a
list has none for it. -/
theorem expandRange_eq (first last : String) :
    expandRange first last = (numberedRange? first last).getD [first, last] := by
  unfold expandRange numberedRange?
  rw [splitNumbered?_eq, splitNumbered?_eq]
  rcases splitDigits? first with - | ⟨stem, low⟩
  · rfl
  rcases splitDigits? last with - | ⟨stem', high⟩
  · cases Option.filter (fun part => !part.1.isEmpty) (some (stem, low)) with
    | none => rfl
    | some part => rfl
  dsimp only
  cases hsame : Text.sameName stem stem' with
  | false =>
    -- names with different stems make no range, whether they have one or not
    cases hfirst : stem.isEmpty with
    | true => simp [Option.filter_some, hfirst]
    | false =>
      cases hlast : stem'.isEmpty with
      | true => simp [Option.filter_some, hfirst, hlast]
      | false => simp [Option.filter_some, hfirst, hlast, hsame]
  | true =>
    have hempty := isEmpty_of_sameName hsame
    cases hstem : stem.isEmpty with
    | true => simp [Option.filter_some, hstem, ← hempty]
    | false =>
      simp only [Option.filter_some, hstem, ← hempty, hsame, Bool.not_false, if_true, Bool.true_and,
        Bool.and_true]
      split
      · rfl
      · rfl

end Parser

end StepLang
