import StepLang.Proofs.Token.TextLiterals

/-! # Texts with other ends

What the scanner cuts from a text in front of the word `ELSE` does not depend on what stands behind
the first letter of that word: this letter ends whatever goes on, and nothing behind it is looked
at.
-/

namespace StepLang.Token

/-- The first letter of `ELSE`. -/
def IsStop (e : Char) : Prop := e = 'e' ∨ e = 'E'

variable {e : Char} {a b u v : List Char}

namespace IsStop

variable (he : IsStop e)

include he

theorem isNameStart : Text.isNameStart e = true := by rcases he with rfl | rfl <;> rfl

theorem isNameChar : Text.isNameChar e = true := by rcases he with rfl | rfl <;> rfl

theorem isDigit : e.isDigit = false := by rcases he with rfl | rfl <;> rfl

theorem isGapChar : isGapChar e = false := by rcases he with rfl | rfl <;> rfl

theorem isBlank : Text.isBlank e = false := by rcases he with rfl | rfl <;> rfl

theorem toUpper : e.toUpper = 'E' := by rcases he with rfl | rfl <;> rfl

theorem ne {c : Char} (hc : c ≠ 'e' ∧ c ≠ 'E') : e ≠ c := by
  rintro rfl
  exact he.elim hc.1 hc.2

end IsStop

/-! ### Parts of a text -/

theorem takeWhile_tail {p : Char → Bool} (hp : p e = false) (u a : List Char) :
    (u ++ e :: a).takeWhile p = u.takeWhile p := by
  induction u with
  | nil => exact List.takeWhile_cons_of_neg (by simp [hp])
  | cons c u ih => rw [List.cons_append, List.takeWhile_cons, List.takeWhile_cons, ih]

theorem dropWhile_tail {p : Char → Bool} (hp : p e = false) (u a : List Char) :
    (u ++ e :: a).dropWhile p = u.dropWhile p ++ e :: a := by
  induction u with
  | nil => exact List.dropWhile_cons_of_neg (by simp [hp])
  | cons c u ih =>
    rw [List.cons_append, List.dropWhile_cons, List.dropWhile_cons, ih]
    split <;> rfl

theorem drop_length_takeWhile_tail {p : Char → Bool} (hp : p e = false) (u a : List Char) :
    (u ++ e :: a).drop (u.takeWhile p).length = u.dropWhile p ++ e :: a := by
  rw [← takeWhile_tail hp u a, drop_length_takeWhile, dropWhile_tail hp]

/-- A name that is not longer than the text before the letter ends within that text. -/
theorem nameLength_tail (he : IsStop e) (h : nameLength (u ++ e :: a) ≤ u.length) :
    nameLength u < u.length ∧ ∀ x, nameLength (u ++ x) = nameLength u := by
  unfold nameLength at h ⊢
  by_cases hall : (u.takeWhile Text.isNameChar).length = u.length
  · rw [List.takeWhile_append, if_pos hall, List.takeWhile_cons_of_pos he.isNameChar,
      List.length_append, List.length_cons] at h
    omega
  · refine ⟨Nat.lt_of_le_of_ne (List.takeWhile_prefix _).length_le hall, fun x => ?_⟩
    rw [List.takeWhile_append, if_neg hall]

theorem commentLength_tail (he : IsStop e) (h : commentLength (u ++ e :: a) ≤ u.length)
    (b : List Char) : commentLength (u ++ e :: b) = commentLength (u ++ e :: a) := by
  induction u with
  | nil =>
    rw [List.nil_append, commentLength, if_neg (he.ne (by decide)), if_neg (he.ne (by decide))] at h
    exact absurd h (by simp)
  | cons c u ih =>
    rw [List.cons_append, commentLength] at h
    rw [List.cons_append, commentLength, List.cons_append, commentLength]
    split
    · rfl
    · rename_i hline
      split
      · rfl
      · rename_i hsemicolon
        rw [if_neg hline, if_neg hsemicolon, List.length_cons] at h
        rw [ih (by omega)]

theorem blockLength?_cons {c : Char} {cs : List Char} (h : ¬ (c = '*' ∧ cs.head? = some '/')) :
    blockLength? (c :: cs) = (blockLength? cs).map (· + 1) := by
  rw [blockLength?]
  rintro rest rfl rfl
  exact h ⟨rfl, rfl⟩

theorem blockLength?_tail (he : IsStop e) {n : Nat} (h : blockLength? (u ++ e :: a) = some n)
    (hn : n ≤ u.length) (b : List Char) : blockLength? (u ++ e :: b) = some n := by
  induction u generalizing n with
  | nil =>
    rw [List.nil_append, blockLength?_cons (fun h => he.ne (by decide) h.1)] at h
    obtain ⟨m, -, rfl⟩ := Option.map_eq_some_iff.mp h
    exact absurd hn (by simp)
  | cons c u ih =>
    have hhead (x : List Char) : (u ++ e :: x).head? = some (u.headD e) := by cases u <;> rfl
    by_cases hclose : c = '*' ∧ u.headD e = '/'
    · obtain ⟨rfl, hslash⟩ := hclose
      cases u with
      | nil => exact absurd hslash (he.ne (by decide))
      | cons d u =>
        obtain rfl : d = '/' := hslash
        exact h
    · have hopen (x : List Char) : ¬ (c = '*' ∧ (u ++ e :: x).head? = some '/') := by
        rw [hhead, Option.some.injEq]
        exact hclose
      rw [List.cons_append, blockLength?_cons (hopen a)] at h
      rw [List.cons_append, blockLength?_cons (hopen b)]
      obtain ⟨m, hm, rfl⟩ := Option.map_eq_some_iff.mp h
      rw [ih hm (Nat.le_of_succ_le_succ hn)]
      rfl

theorem quoted?_tail {quote : Char} (he : e ≠ quote) {s : List Char} {n : Nat}
    (h : quoted? quote (u ++ e :: a) = some (s, n)) (hn : n ≤ u.length) (b : List Char) :
    quoted? quote (u ++ e :: b) = some (s, n) := by
  obtain ⟨following, hsplit, hfollowing, rfl⟩ := quoted?_eq_some_iff.mp h
  have hsplit : u ++ e :: a = (doubled quote s ++ [quote]) ++ following := by
    rw [hsplit, List.append_assoc, List.singleton_append]
  obtain ⟨u, rfl⟩ : doubled quote s ++ [quote] <+: u :=
    List.prefix_of_prefix_length_le ⟨following, hsplit.symm⟩ (List.prefix_append u (e :: a))
      (by rwa [List.length_append])
  rw [List.append_assoc, List.append_cancel_left_eq] at hsplit
  subst hsplit
  refine quoted?_eq_some_iff.mpr ⟨u ++ e :: b, ?_, ?_, rfl⟩
  · rw [List.append_assoc, List.append_assoc, List.singleton_append]
  · cases u with
    | nil => simpa using he
    | cons c u => exact hfollowing

theorem followingIf?_tail (he : IsStop e) (u a b : List Char) :
    followingIf? (u ++ e :: a) = followingIf? (u ++ e :: b) := by
  have hfirst : e.toUpper ≠ 'I' := by rw [he.toUpper]; decide
  have hsecond : e.toUpper ≠ 'F' := by rw [he.toUpper]; decide
  have hname (v x : List Char) : nameLength (v ++ e :: x) = 0 ↔ nameLength (v ++ [e]) = 0 := by
    cases v <;> simp [nameLength, List.takeWhile_cons, he.isNameChar]
  unfold followingIf?
  dsimp only
  rw [takeWhile_tail he.isGapChar, takeWhile_tail he.isGapChar,
    drop_length_takeWhile_tail he.isGapChar, drop_length_takeWhile_tail he.isGapChar]
  rcases u.dropWhile isGapChar with _ | ⟨i, _ | ⟨f, v⟩⟩
  · cases a <;> cases b <;> simp [hfirst]
  · simp [hsecond]
  · simp [hname]

theorem semicolonFollows_tail (he : IsStop e) (u a b : List Char) :
    semicolonFollows (u ++ e :: a) = semicolonFollows (u ++ e :: b) := by
  rw [Bool.eq_iff_iff, semicolonFollows_iff, semicolonFollows_iff, dropWhile_tail he.isBlank,
    dropWhile_tail he.isBlank]
  cases u.dropWhile Text.isBlank <;> rfl

theorem pair_tail (second : Char) (long short : Kind) (u a b : List Char) :
    pair second long short (u ++ e :: a) = pair second long short (u ++ e :: b) := by
  cases u <;> rfl

theorem numeral_tail (he : IsStop e) (c : Char) (u a b : List Char) :
    numeral c (u ++ e :: a) = numeral c (u ++ e :: b) := by
  unfold numeral
  dsimp only
  rw [takeWhile_tail he.isDigit, takeWhile_tail he.isDigit, drop_length_takeWhile_tail he.isDigit,
    drop_length_takeWhile_tail he.isDigit]
  cases u.dropWhile Char.isDigit with
  | nil => rcases he with rfl | rfl <;> rfl
  | cons d v =>
    by_cases hd : d = '.'
    · subst hd
      simp only [List.cons_append, takeWhile_tail he.isDigit]
    · simp only [List.cons_append]
      split
      · rfl
      · split <;> split <;> simp_all

theorem name_tail (he : IsStop e) (h : nameLength (u ++ e :: a) ≤ u.length) (b : List Char) :
    nameLength (u ++ e :: b) = nameLength (u ++ e :: a) ∧
      (u ++ e :: b).take (nameLength (u ++ e :: a)) =
        (u ++ e :: a).take (nameLength (u ++ e :: a)) ∧
      ∃ d v, ∀ x, (u ++ e :: x).drop (nameLength (u ++ e :: a)) = d :: (v ++ e :: x) := by
  obtain ⟨hlt, heq⟩ := nameLength_tail he h
  obtain ⟨d, v, hdrop⟩ :=
    List.exists_cons_of_ne_nil (mt List.drop_eq_nil_iff.mp (Nat.not_le.mpr hlt))
  rw [heq, heq]
  refine ⟨rfl, ?_, d, v, fun x => ?_⟩
  · rw [List.take_append_of_le_length hlt.le, List.take_append_of_le_length hlt.le]
  · rw [List.drop_append_of_le_length hlt.le, hdrop, List.cons_append]

theorem word_tail (he : IsStop e) {c : Char} (h : (word c (u ++ e :: a)).2 ≤ u.length)
    (b : List Char) : word c (u ++ e :: b) = word c (u ++ e :: a) := by
  have hn : nameLength (u ++ e :: a) ≤ u.length := by
    refine Nat.le_trans ?_ h
    unfold word
    dsimp only
    split
    · split
      · exact Nat.le_add_right _ _
      · exact Nat.le_refl _
    · exact Nat.le_refl _
    · exact Nat.le_refl _
  obtain ⟨hlength, htake, d, v, hdrop⟩ := name_tail he hn b
  have hif : followingIf? (d :: (v ++ e :: b)) = followingIf? (d :: (v ++ e :: a)) :=
    followingIf?_tail he (d :: v) b a
  unfold word
  dsimp only
  rw [hlength, htake, hdrop, hdrop, hif]

theorem macroReference_tail (he : IsStop e) (h : (macroReference (u ++ e :: a)).2 ≤ u.length)
    (b : List Char) : macroReference (u ++ e :: b) = macroReference (u ++ e :: a) := by
  have hn : nameLength (u ++ e :: a) ≤ u.length := by
    refine Nat.le_trans ?_ h
    unfold macroReference
    dsimp only
    split
    · exact Nat.le_succ _
    · exact Nat.le_refl _
  obtain ⟨hlength, htake, d, v, hdrop⟩ := name_tail he hn b
  unfold macroReference
  dsimp only
  rw [hlength, htake, hdrop, hdrop]
  by_cases hd : d = '.'
  · subst hd
    rfl
  · split <;> split <;> simp_all

theorem startsName_tail (u a b : List Char) :
    startsName (u ++ e :: a) = startsName (u ++ e :: b) := by
  cases u <;> rfl

theorem startsDigit_tail (u a b : List Char) :
    startsDigit (u ++ e :: a) = startsDigit (u ++ e :: b) := by
  cases u <;> rfl

theorem piece_slash_tail (he : IsStop e) {atStart : Bool} {found : Piece} {n : Nat}
    (h : piece atStart '/' (u ++ e :: a) = .ok (found, n)) (hn : n ≤ u.length) (b : List Char) :
    piece atStart '/' (u ++ e :: b) = .ok (found, n) := by
  unfold piece at h ⊢
  dsimp only at h ⊢
  cases u with
  | nil => rcases he with rfl | rfl <;> exact h
  | cons d u =>
    by_cases hd : d = '*'
    · subst hd
      simp only [List.cons_append] at h ⊢
      cases hlength : blockLength? (u ++ e :: a) with
      | none =>
        rw [hlength] at h
        cases h
      | some m =>
        rw [hlength] at h
        cases h
        rw [blockLength?_tail he hlength (Nat.le_of_succ_le_succ hn) b]
    · simp only [List.cons_append] at h ⊢
      split at h <;> split <;> simp_all

theorem piece_quote_tail {quote : Char} (he : e ≠ quote) (hq : isQuote quote = true)
    {atStart : Bool} {found : Piece} {n : Nat}
    (h : piece atStart quote (u ++ e :: a) = .ok (found, n)) (hn : n ≤ u.length) (b : List Char) :
    piece atStart quote (u ++ e :: b) = .ok (found, n) := by
  rw [piece_quote hq] at h ⊢
  cases hquoted : quoted? quote (u ++ e :: a) with
  | none =>
    rw [hquoted] at h
    cases h
  | some p =>
    obtain ⟨s, m⟩ := p
    rw [hquoted] at h
    cases h
    rw [quoted?_tail he hquoted hn b]

/-- A piece that is cut off before the letter is the same piece. -/
theorem piece_tail (he : IsStop e) {atStart : Bool} {c : Char} {found : Piece} {n : Nat}
    (h : piece atStart c (u ++ e :: a) = .ok (found, n)) (hn : n ≤ u.length) (b : List Char) :
    piece atStart c (u ++ e :: b) = .ok (found, n) := by
  by_cases hname : Text.isNameStart c = true
  · rw [piece_of_isNameStart hname] at h ⊢
    cases h
    rw [word_tail he hn]
  by_cases hslash : c = '/'
  · subst hslash
    exact piece_slash_tail he h hn b
  by_cases hquote : isQuote c = true
  · refine piece_quote_tail (he.ne ⟨?_, ?_⟩) hquote h hn b <;> (rintro rfl; cases hquote)
  unfold piece at h ⊢
  dsimp only at h ⊢
  split at h
  case h_16 =>
    split at h
    · rename_i hstart
      cases h
      rw [if_pos hstart, commentLength_tail he hn b]
    · rename_i hstart
      rwa [if_neg hstart, pair_tail _ _ _ u b a]
  case h_17 => exact absurd rfl hslash
  case h_18 | h_19 | h_20 | h_21 | h_22 | h_23 | h_24 => rwa [pair_tail _ _ _ u b a]
  case h_25 =>
    rw [startsName_tail u b a]
    split at h
    · rename_i hstarts
      cases h
      rw [if_pos hstarts, macroReference_tail he hn b]
    · rename_i hstarts
      rwa [if_neg hstarts]
  case h_26 =>
    rw [startsName_tail u b a]
    split at h
    · rename_i hstarts
      split at h
      · rename_i hword
        cases h
        obtain ⟨hlength, htake, -⟩ := name_tail he hn b
        rw [if_pos hstarts, hlength, htake, hword]
      · cases h
    · cases h
  case h_27 | h_28 => exact absurd rfl hquote
  case h_29 => rwa [startsDigit_tail u b a, numeral_tail he _ u b a]
  case h_30 =>
    rw [if_neg hname] at h ⊢
    rwa [numeral_tail he _ u b a]
  all_goals exact h

/-! ### Data lines -/

theorem lineLength_of_not_mem (hu : '\n' ∉ u) (a : List Char) :
    u.length < lineLength (u ++ e :: a) := by
  induction u with
  | nil => exact lineLength_pos
  | cons c u ih =>
    obtain ⟨hc, hu⟩ := List.ne_and_not_mem_of_not_mem_cons hu
    rw [List.cons_append, lineLength, if_neg (Ne.symm hc), List.length_cons]
    have := ih hu
    omega

theorem lineLength_le_dataBlock (cs : List Char) : lineLength cs ≤ (dataBlock cs).length := by
  fun_cases dataBlock cs with
  | case1 => exact Nat.le_refl _
  | case2 => exact Nat.le_refl _
  | case3 => exact Nat.le_add_right _ _

theorem exists_line (h : lineLength (u ++ e :: a) ≤ u.length) :
    ∃ line v, u = line ++ '\n' :: v ∧ '\n' ∉ line := by
  by_cases hu : '\n' ∈ u
  · exact List.eq_append_cons_of_mem hu
  · exact absurd h (Nat.not_le.mpr (lineLength_of_not_mem hu a))

theorem dataBlock_tail (h : (dataBlock (u ++ e :: a)).length ≤ u.length)
    (b : List Char) : dataBlock (u ++ e :: b) = dataBlock (u ++ e :: a) := by
  induction hlength : u.length using Nat.strong_induction_on generalizing u with
  | _ n ih =>
    subst hlength
    obtain ⟨line, v, rfl, hline⟩ := exists_line ((lineLength_le_dataBlock _).trans h)
    rw [List.append_assoc, List.cons_append, dataBlock_line hline] at h
    rw [List.append_assoc, List.cons_append, dataBlock_line hline, List.append_assoc,
      List.cons_append, dataBlock_line hline]
    split
    · rfl
    · rename_i hends
      rw [if_neg hends, List.length_append, List.length_cons] at h
      have hv : line.length + 1 + (dataBlock (v ++ e :: a)).length ≤
        line.length + (v.length + 1) := h
      rw [ih v.length (by simp; omega) (by omega) rfl]

theorem data_tail (h : dataLength (u ++ e :: a) ≤ u.length) (b : List Char)
    (pos : Position) : dataLength (u ++ e :: b) = dataLength (u ++ e :: a) ∧
      dataTokens pos (u ++ e :: b) = dataTokens pos (u ++ e :: a) := by
  obtain ⟨line, v, rfl, hline⟩ := exists_line ((Nat.le_add_right _ _).trans h)
  have hlength (x : List Char) : lineLength ((line ++ '\n' :: v) ++ x) = line.length + 1 := by
    rw [List.append_assoc, List.cons_append, lineLength_append hline]
  have hdrop (x : List Char) : ((line ++ '\n' :: v) ++ x).drop (line.length + 1) = v ++ x := by simp
  have hblock : dataBlock (v ++ e :: b) = dataBlock (v ++ e :: a) := by
    refine dataBlock_tail ?_ b
    rw [dataLength, hlength, hdrop, List.length_append, List.length_cons] at h
    omega
  have hdata : dataLength ((line ++ '\n' :: v) ++ e :: b) =
      dataLength ((line ++ '\n' :: v) ++ e :: a) := by
    rw [dataLength, dataLength, hlength, hlength, hdrop, hdrop, hblock]
  refine ⟨hdata, ?_⟩
  have htake {n : Nat} (hn : n ≤ (line ++ '\n' :: v).length) :
      ((line ++ '\n' :: v) ++ e :: b).take n = ((line ++ '\n' :: v) ++ e :: a).take n := by
    rw [List.take_append_of_le_length hn, List.take_append_of_le_length hn]
  unfold dataTokens
  dsimp only
  rw [hdata, htake h, hlength, hlength, hdrop, hdrop, hblock,
    htake (by rw [List.length_append, List.length_cons]; omega)]

/-! ### Places -/

theorem take_tail {n : Nat} (h : n ≤ u.length) (a b : List Char) :
    (u ++ e :: b).take n = (u ++ e :: a).take n := by
  rw [List.take_append_of_le_length h, List.take_append_of_le_length h]

theorem drop_tail {n : Nat} (h : (u ++ e :: a).drop n = v ++ e :: a) :
    n ≤ u.length ∧ v = u.drop n := by
  have hlength := congrArg List.length h
  simp only [List.length_drop, List.length_append, List.length_cons] at hlength
  have hn : n ≤ u.length := by omega
  rw [List.drop_append_of_le_length hn] at h
  exact ⟨hn, (List.append_cancel_right h).symm⟩

def Place.withAhead (p : Place) (ahead : List Char) : Place := { p with ahead }

/-- What is cut before the letter is cut from the text with another end, too. -/
theorem Cuts.tail {p q : Place} {tokens : List Token} (h : Cuts p tokens q) (he : IsStop e)
    (hp : p.ahead = u ++ e :: a) (hq : q.ahead = v ++ e :: a) (b : List Char) :
    Cuts (p.withAhead (u ++ e :: b)) tokens (q.withAhead (v ++ e :: b)) := by
  cases u with
  | nil =>
    obtain ⟨text, htext, hahead, -⟩ := h.exists_append
    have hlength := congrArg List.length (hp.symm.trans (hahead.trans (congrArg (text ++ ·) hq)))
    simp only [List.length_append, List.length_cons, List.length_nil] at hlength
    exact absurd (List.length_pos_iff.mpr htext) (by omega)
  | cons c u =>
    cases h with
    | @gap atStart dataFollow pos d cs n hpiece =>
      obtain ⟨rfl, hcs⟩ := List.cons.inj hp
      rw [List.append_eq] at hcs
      subst hcs
      obtain ⟨hn, rfl⟩ := drop_tail hq
      have hcuts : Cuts ⟨atStart, dataFollow, pos, d :: (u ++ e :: b)⟩ [] _ :=
        .gap (piece_tail he hpiece hn b)
      rwa [take_tail hn a b, List.drop_append_of_le_length hn] at hcuts
    | @token atStart dataFollow pos d cs kind n hpiece hd =>
      obtain ⟨rfl, hcs⟩ := List.cons.inj hp
      rw [List.append_eq] at hcs
      subst hcs
      obtain ⟨hn, rfl⟩ := drop_tail hq
      have hcuts : Cuts ⟨atStart, dataFollow, pos, d :: (u ++ e :: b)⟩ _ _ :=
        .token (piece_tail he hpiece hn b) hd
      rw [List.drop_append_of_le_length hn, semicolonFollows_tail he _ b a,
        take_tail hn a b] at hcuts
      rw [List.drop_append_of_le_length hn]
      exact hcuts
    | @data atStart pos d cs n hpiece =>
      obtain ⟨rfl, hcs⟩ := List.cons.inj hp
      rw [List.append_eq] at hcs
      subst hcs
      have hdata : (u ++ e :: a).drop (n + dataLength ((u ++ e :: a).drop n)) = v ++ e :: a := by
        rw [← List.drop_drop]
        exact hq
      obtain ⟨hlength, rfl⟩ := drop_tail hdata
      have hn : n ≤ u.length := (Nat.le_add_right _ _).trans hlength
      rw [List.drop_append_of_le_length hn] at hlength ⊢
      have hle : dataLength (u.drop n ++ e :: a) ≤ (u.drop n).length := by
        rw [List.length_drop]
        omega
      obtain ⟨hsame, htokens⟩ := data_tail hle b (pos.after (d :: (u ++ e :: a).take n))
      have hcuts : Cuts ⟨atStart, true, pos, d :: (u ++ e :: b)⟩ _ _ :=
        .data (piece_tail he hpiece hn b)
      rwa [List.drop_append_of_le_length hn, take_tail hn a b, hsame, htokens, take_tail hle a b,
        List.drop_append_of_le_length hle, List.drop_drop] at hcuts

/-- What the scanner cuts on its way to the letter does not depend on the text behind it. -/
theorem Reaches.tail {p q : Place} {tokens : List Token} (h : Reaches p tokens q) (he : IsStop e)
    (hp : p.ahead = u ++ e :: a) (hq : q.ahead = v ++ e :: a) (b : List Char) :
    Reaches (p.withAhead (u ++ e :: b)) tokens (q.withAhead (v ++ e :: b)) := by
  induction h generalizing u with
  | here =>
    obtain rfl := List.append_cancel_right (hp.symm.trans hq)
    exact .here _
  | cut hc hr ih =>
    obtain ⟨text, hahead, -⟩ := hr.exists_append
    rw [hq, ← List.append_assoc] at hahead
    exact .cut (hc.tail he hp hahead b) (ih hahead hq)

end StepLang.Token
