import StepLang.Proofs.Parser.Parted
import StepLang.Proofs.Token.Tails

/-! # Words with a comment between them

The words `ELSE` and `IF` are one token if only blanks stand between them, and two if a comment
does. The other tokens of a text are the same in both cases, but for their places.
-/

namespace StepLang

/-- A longer text ends at another place. -/
theorem Position.eq_nil_of_behind {head more : List Char}
    (h : behind (head ++ more) = behind head) : more = [] := by
  obtain ⟨hline, hcolumn⟩ := Position.mk.inj h
  rw [List.count_append] at hline
  have hmore : ∀ c ∈ more.reverse, (c != '\n') = true := by
    intro c hc
    rw [bne_iff_ne]
    rintro rfl
    have := List.count_pos_iff.mpr (List.mem_reverse.mp hc)
    omega
  rw [List.reverse_append, List.takeWhile_append_of_pos hmore, List.length_append,
    List.length_reverse] at hcolumn
  exact List.length_eq_zero_iff.mp (by omega)

namespace Token

variable {p q : Place} {tokens : List Token}

/-! ### Texts at other places -/

def Place.movedTo (p : Place) (pos : Position) : Place := { p with pos }

theorem Cuts.moved (h : Cuts p tokens q) (pos : Position) : ∃ tokens' next,
    Cuts (p.movedTo pos) tokens' (q.movedTo next) ∧ List.Forall₂ Alike tokens tokens' := by
  cases h with
  | gap hp => exact ⟨_, _, .gap hp, .nil⟩
  | token hp hd => exact ⟨_, _, .token hp hd, .cons ⟨rfl, rfl⟩ .nil⟩
  | data hp =>
    exact ⟨_, _, .data hp, .cons ⟨rfl, rfl⟩ (.cons ⟨rfl, rfl⟩ (.cons ⟨rfl, rfl⟩ .nil))⟩

theorem Reaches.moved (h : Reaches p tokens q) (pos : Position) : ∃ tokens' next,
    Reaches (p.movedTo pos) tokens' (q.movedTo next) ∧ List.Forall₂ Alike tokens tokens' := by
  induction h generalizing pos with
  | here => exact ⟨[], pos, .here _, .nil⟩
  | cut hc _ ih =>
    obtain ⟨first, next, hfirst, halike⟩ := hc.moved pos
    obtain ⟨later, last, hlater, halike'⟩ := ih next
    exact ⟨first ++ later, last, .cut hfirst hlater, List.rel_append halike halike'⟩

/-- The tokens of a text are the same wherever it stands, but for their places. -/
theorem scan_moved (h : p.scan = .ok tokens) (pos : Position) :
    ∃ tokens', (p.movedTo pos).scan = .ok tokens' ∧ List.Forall₂ Alike tokens tokens' := by
  obtain ⟨⟨atStart, dataFollow, last, ahead⟩, init, hr, rfl, rfl⟩ := exists_reaches h
  obtain ⟨init', next, hr', halike⟩ := hr.moved pos
  refine ⟨init' ++ [⟨.endOfInput, "", next⟩], ?_,
    List.rel_append halike (.cons ⟨rfl, rfl⟩ .nil)⟩
  rw [hr'.scan, Place.movedTo, Place.scan, scanFrom]
  rfl

/-! ### Keywords in a text -/

/-- The letters of a keyword, in any case. -/
structure IsKeyword (k : Keyword) (word : List Char) : Prop where
  reserved : Kind.ofWord? (String.ofList word) = some (.keyword k)
  letters : ∃ c w, word = c :: w ∧ Text.isNameStart c = true ∧ w.all Text.isNameChar = true

theorem IsStop.of_toUpper {c : Char} (h : c.toUpper = 'E') : IsStop c :=
  (Text.eq_of_toUpper h).symm.imp_left Char.toNat_inj.mp

/-- The word `ELSE` begins with the letter that ends whatever goes on. -/
theorem exists_stop {word : List Char} (h : Text.upper (String.ofList word) = "ELSE") :
    ∃ e more, word = e :: more ∧ IsStop e := by
  have hletters := congrArg String.toList h
  rw [Text.upper, String.toList_map, String.toList_ofList] at hletters
  cases word with
  | nil => cases hletters
  | cons e more => exact ⟨e, more, rfl, .of_toUpper (List.cons.inj hletters).1⟩

theorem IsKeyword.upper_eq {k : Keyword} {word : List Char} (h : IsKeyword k word)
    (hunique : ∀ p ∈ Kind.reserved, p.2 = .keyword k → p.1 = k.toText) :
    Text.upper (String.ofList word) = k.toText :=
  hunique _ (mem_of_lookup h.reserved) rfl

theorem IsKeyword.length_eq {k : Keyword} {word : List Char} (h : IsKeyword k word)
    (hunique : ∀ p ∈ Kind.reserved, p.2 = .keyword k → p.1 = k.toText) :
    word.length = k.toText.length := by
  rw [← h.upper_eq hunique, Text.length_upper, String.length_ofList]

theorem isKeyword_if {i f : Char} (hi : i.toUpper = 'I') (hf : f.toUpper = 'F') :
    IsKeyword .IF [i, f] := by
  have hi : i = 'I' ∨ i = 'i' := (Text.eq_of_toUpper hi).imp_right Char.toNat_inj.mp
  have hf : f = 'F' ∨ f = 'f' := (Text.eq_of_toUpper hf).imp_right Char.toNat_inj.mp
  rcases hi with rfl | rfl <;> rcases hf with rfl | rfl <;>
    exact ⟨by decide +kernel, _, _, rfl, rfl, rfl⟩

theorem word_else {c : Char} {w rest : List Char} (h : IsKeyword .ELSE (c :: w))
    (hw : w.all Text.isNameChar = true) (hr : nameLength rest = 0)
    (hif : followingIf? rest = none) : word c (w ++ rest) = (.keyword .ELSE, w.length) := by
  unfold word
  dsimp only
  rw [nameLength_append hw hr, List.take_left, List.drop_left, h.reserved, hif]

theorem cuts_keyword {k : Keyword} (hk : k ≠ .ELSEIF ∧ k ≠ .DATALINES) {atStart : Bool} {c : Char}
    {w rest : List Char} (hp : piece atStart c (w ++ rest) = .ok (.token (.keyword k), w.length))
    (dataFollow : Bool) (pos : Position) :
    Cuts ⟨atStart, dataFollow, pos, c :: w ++ rest⟩ [⟨.keyword k, String.ofList (c :: w), pos⟩]
      ⟨false, dataFollow, pos.after (c :: w), rest⟩ := by
  have hcuts : Cuts ⟨atStart, dataFollow, pos, c :: (w ++ rest)⟩ _ _ := .token hp (by simp)
  have hlexeme : lexemeOf (.keyword k) (c :: w) = String.ofList (c :: w) := by
    cases k <;> first | rfl | exact absurd rfl hk.1
  have hkind : (Kind.keyword k == .keyword .DATALINES) = false := by simpa using hk.2
  rwa [List.take_left, List.drop_left, hlexeme, hkind, Bool.false_and, Bool.false_and,
    Bool.or_false] at hcuts

theorem cuts_else {first rest : List Char} (h : IsKeyword .ELSE first) (hr : nameLength rest = 0)
    (hif : followingIf? rest = none) (atStart dataFollow : Bool) (pos : Position) :
    Cuts ⟨atStart, dataFollow, pos, first ++ rest⟩ [⟨.keyword .ELSE, String.ofList first, pos⟩]
      ⟨false, dataFollow, pos.after first, rest⟩ := by
  obtain ⟨c, w, rfl, hc, hw⟩ := h.letters
  refine cuts_keyword (by simp) ?_ dataFollow pos
  rw [piece_of_isNameStart hc, word_else h hw hr hif]

theorem cuts_if {second rest : List Char} (h : IsKeyword .IF second) (hr : nameLength rest = 0)
    (atStart dataFollow : Bool) (pos : Position) :
    Cuts ⟨atStart, dataFollow, pos, second ++ rest⟩ [⟨.keyword .IF, String.ofList second, pos⟩]
      ⟨false, dataFollow, pos.after second, rest⟩ := by
  obtain ⟨c, w, rfl, hc, hw⟩ := h.letters
  exact cuts_keyword (by simp)
    (piece_word hc hw hr (by rw [h.reserved]; rfl) (by simp)) dataFollow pos

/-! ### Comments between words -/

/-- Blanks and block comments, at least one comment among them. -/
structure IsDivider (divider : List Char) : Prop where
  gap : ∀ rest, Gap false (divider ++ rest) rest
  comment : ∃ blanks more, divider = blanks ++ '/' :: more ∧ ∀ c ∈ blanks, isGapChar c = true

theorem isGapChar_cases {c : Char} (h : isGapChar c = true) :
    c = ' ' ∨ c = '\t' ∨ c = '\r' ∨ c = '\n' := by
  simpa [isGapChar, or_assoc] using h

theorem blockLength?_append_closing {inner cs : List Char} (h : ¬ ['*', '/'] <:+: inner ++ ['*']) :
    blockLength? (inner ++ '*' :: '/' :: cs) = some (inner.length + 2) := by
  induction inner with
  | nil => rfl
  | cons c inner ih =>
    rw [List.cons_append, List.infix_cons_iff, not_or] at h
    have hopen : ¬ (c = '*' ∧ (inner ++ '*' :: '/' :: cs).head? = some '/') := by
      rintro ⟨rfl, hslash⟩
      cases inner with
      | nil => cases hslash
      | cons d inner =>
        cases hslash
        exact h.1 ⟨inner ++ ['*'], rfl⟩
    rw [List.cons_append, blockLength?_cons hopen, ih h.2]
    rfl

theorem reaches_gap {cs rest : List Char} (h : Gap false cs rest) (dataFollow : Bool)
    (pos : Position) : ∃ next,
    Reaches ⟨false, dataFollow, pos, cs⟩ [] ⟨false, dataFollow, next, rest⟩ := by
  induction h generalizing pos with
  | none => exact ⟨pos, .here _⟩
  | @blank c cs rest hc _ ih =>
    obtain ⟨next, hr⟩ := ih (pos.next c)
    have hpiece : piece false c cs = .ok (.gap, 0) := by
      rcases isGapChar_cases hc with rfl | rfl | rfl | rfl <;> rfl
    exact ⟨next, .cut (.gap hpiece) hr⟩
  | @block inner cs rest hi _ ih =>
    have hpiece : piece false '/' ('*' :: (inner ++ '*' :: '/' :: cs)) =
        .ok (.gap, inner.length + 3) := by
      unfold piece
      simp only [blockLength?_append_closing hi]
    have hdrop : ('*' :: (inner ++ '*' :: '/' :: cs)).drop (inner.length + 3) = cs := by simp
    have hcuts : Cuts ⟨false, dataFollow, pos, '/' :: '*' :: (inner ++ '*' :: '/' :: cs)⟩ [] _ :=
      .gap hpiece
    rw [hdrop] at hcuts
    obtain ⟨next, hr⟩ := ih _
    exact ⟨next, .cut hcuts hr⟩
  | statement hs => cases hs
  | line hs => cases hs

namespace IsDivider

variable {divider : List Char} (h : IsDivider divider) (rest : List Char)

include h

theorem dropWhile : ∃ more, (divider ++ rest).dropWhile isGapChar = '/' :: more := by
  obtain ⟨blanks, more, rfl, hblanks⟩ := h.comment
  refine ⟨more ++ rest, ?_⟩
  rw [List.append_assoc, List.dropWhile_append_of_pos hblanks]
  rfl

theorem followingIf? : Token.followingIf? (divider ++ rest) = none := by
  obtain ⟨more, hmore⟩ := h.dropWhile rest
  unfold Token.followingIf?
  dsimp only
  rw [drop_length_takeWhile, hmore]
  cases more with
  | nil => rfl
  | cons c more => exact if_neg fun hif => absurd hif.1 (by decide)

theorem nameLength : Token.nameLength (divider ++ rest) = 0 := by
  obtain ⟨blanks, more, rfl, hblanks⟩ := h.comment
  cases blanks with
  | nil => rfl
  | cons c blanks =>
    rcases isGapChar_cases (hblanks c List.mem_cons_self) with rfl | rfl | rfl | rfl <;> rfl

end IsDivider

/-! ### The compound word -/

theorem isStop_of_piece {atStart : Bool} {c : Char} {cs : List Char} {n : Nat}
    (h : piece atStart c cs = .ok (.token (.keyword .ELSEIF), n)) : IsStop c := by
  generalize htext : c :: cs.take n = text
  have hspells := (spelled_of_piece h).pair rfl
  rw [htext] at hspells
  cases hspells with
  | word hk => exact absurd rfl hk
  | @pair first gap second _ _ hfirst _ _ _ =>
    obtain ⟨e, more, rfl, he⟩ := exists_stop hfirst
    obtain ⟨rfl, -⟩ := List.cons.inj htext
    exact he

theorem exists_of_word {c : Char} {cs : List Char} {n : Nat} (hc : Text.isNameStart c = true)
    (h : word c cs = (.keyword .ELSEIF, n)) : ∃ first gap second,
      c :: cs = first ++ gap ++ second ++ cs.drop n ∧ IsKeyword .ELSE first ∧
        (∀ c ∈ gap, isGapChar c = true) ∧ IsKeyword .IF second ∧ nameLength (cs.drop n) = 0 := by
  unfold word at h
  dsimp only at h
  split at h
  · rename_i hreserved
    split at h
    · rename_i k hif
      cases h
      obtain ⟨gap, i, f, hcs, -, hgap, hi, hf, hrest⟩ := exists_of_followingIf? hif
      rw [List.drop_drop] at hcs hrest
      refine ⟨c :: cs.take (nameLength cs), gap, [i, f], ?_, ⟨hreserved, c, _, rfl, hc, ?_⟩, hgap,
        isKeyword_if hi hf, hrest⟩
      · conv_lhs => rw [← List.take_append_drop (nameLength cs) cs, hcs]
        simp
      · rw [nameLength, ← List.prefix_iff_eq_take.mp (List.takeWhile_prefix _)]
        exact List.all_takeWhile
    · cases h
  · rename_i hreserved
    cases h
    have hne : ∀ p ∈ Kind.reserved, p.2 ≠ .keyword .ELSEIF := by decide
    exact absurd rfl (hne _ (mem_of_lookup hreserved))
  · cases h

theorem Cuts.eq_singleton {t : Token} (h : Cuts p tokens q) (hmem : t ∈ tokens)
    (ht : t.kind = .keyword .ELSEIF) : tokens = [t] := by
  cases h with
  | gap => cases hmem
  | token => rw [List.mem_singleton.mp hmem]
  | data =>
    simp only [dataTokens, List.mem_cons, List.not_mem_nil, or_false] at hmem
    rcases hmem with rfl | rfl | rfl <;> cases ht

/-- Where the compound word is cut, its two words stand with blanks between them. -/
theorem Cuts.exists_words {t : Token} (h : Cuts p [t] q) (ht : t.kind = .keyword .ELSEIF) :
    t.pos = p.pos ∧ q.atStart = false ∧ q.dataFollow = p.dataFollow ∧ ∃ first gap second,
      p.ahead = first ++ gap ++ second ++ q.ahead ∧ IsKeyword .ELSE first ∧
        (∀ c ∈ gap, isGapChar c = true) ∧ IsKeyword .IF second ∧ nameLength q.ahead = 0 := by
  cases h with
  | token hp hd =>
    obtain rfl : _ = Kind.keyword .ELSEIF := ht
    have hstart := (isStop_of_piece hp).isNameStart
    rw [piece_of_isNameStart hstart] at hp
    cases hword : word _ _ with
    | mk kind n =>
      rw [hword] at hp
      cases hp
      exact ⟨rfl, rfl, Bool.or_false _, exists_of_word hstart hword⟩

theorem Reaches.split {before after : List Token} {t : Token}
    (h : Reaches p (before ++ t :: after) q) (ht : t.kind = .keyword .ELSEIF) :
    ∃ p' q', Reaches p before p' ∧ Cuts p' [t] q' ∧ Reaches q' after q := by
  generalize htokens : before ++ t :: after = tokens at h
  induction h generalizing before with
  | here => simp at htokens
  | @cut p p' q first later hc hr ih =>
    rcases List.append_eq_append_iff.mp htokens with ⟨more, rfl, hmore⟩ | ⟨more, rfl, rfl⟩
    · cases more with
      | nil =>
        obtain ⟨p₁, q₁, hbefore, hcut, hafter⟩ := ih (show [] ++ t :: after = later from hmore)
        exact ⟨p₁, q₁, by simpa using Reaches.cut hc hbefore, hcut, hafter⟩
      | cons u more =>
        obtain ⟨rfl, rfl⟩ := List.cons.inj hmore
        have hsingle := hc.eq_singleton (by simp) ht
        obtain ⟨rfl, hmore⟩ := List.append_eq_singleton_iff.mp hsingle |>.resolve_right (by simp)
        obtain rfl := (List.cons.inj hmore).2
        exact ⟨p, p', .here p, hc, hr⟩
    · obtain ⟨p₁, q₁, hbefore, hcut, hafter⟩ := ih rfl
      exact ⟨p₁, q₁, .cut hc hbefore, hcut, hafter⟩

theorem exists_cut {before after : List Token} {t : Token}
    (h : p.scan = .ok (before ++ t :: after)) (ht : t.kind = .keyword .ELSEIF) :
    ∃ p' q', Reaches p before p' ∧ Cuts p' [t] q' ∧ q'.scan = .ok after := by
  obtain ⟨q, init, hr, hq, htokens⟩ := exists_reaches h
  have hend : q.scan = .ok [⟨.endOfInput, "", q.pos⟩] := by
    rw [Place.scan, hq, scanFrom]
  rcases List.eq_nil_or_concat after with rfl | ⟨after, last, rfl⟩
  · obtain ⟨rfl, -⟩ := List.cons.inj (List.append_inj_right' htokens rfl)
    cases ht
  · rw [List.concat_eq_append, ← List.cons_append, ← List.append_assoc] at htokens
    obtain ⟨rfl, hlast⟩ := List.append_inj' htokens rfl
    obtain ⟨p', q', hbefore, hcut, hafter⟩ := hr.split ht
    refine ⟨p', q', hbefore, hcut, ?_⟩
    rw [hafter.scan, hend, List.concat_eq_append, hlast]
    rfl

/-! ### The words parted -/

/-- The words `ELSE` and `IF` in a text, with blanks between them. -/
structure HasWords (source : String) (head first gap second rest : List Char) : Prop where
  text : source.toList = head ++ first ++ gap ++ second ++ rest
  first : IsKeyword .ELSE first
  gap : ∀ c ∈ gap, isGapChar c = true
  second : IsKeyword .IF second

def dividedText (head first divider second rest : List Char) : String :=
  String.ofList (head ++ first ++ divider ++ second ++ rest)

namespace HasWords

variable {source : String} {head first gap second rest head' first' gap' second' rest' : List Char}

theorem gap_eq (h : HasWords source head first gap second rest) :
    (gap ++ (second ++ rest)).takeWhile isGapChar = gap := by
  obtain ⟨c, w, rfl, hc, -⟩ := h.second.letters
  have hc : isGapChar c = false := by
    rw [← Bool.not_eq_true]
    intro hgap
    rcases isGapChar_cases hgap with rfl | rfl | rfl | rfl <;> cases hc
  rw [List.takeWhile_append_of_pos h.gap, List.cons_append,
    List.takeWhile_cons_of_neg (by simp [hc]), List.append_nil]

/-- The place of the words determines them. -/
theorem unique (h : HasWords source head first gap second rest)
    (h' : HasWords source head' first' gap' second' rest')
    (hpos : Position.behind head = Position.behind head') :
    head' = head ∧ first' = first ∧ second' = second ∧ rest' = rest := by
  have htext := h.text.symm.trans h'.text
  simp only [List.append_assoc] at htext
  obtain rfl : head' = head := by
    rcases List.append_eq_append_iff.mp htext with ⟨more, rfl, -⟩ | ⟨more, rfl, -⟩
    · rw [Position.eq_nil_of_behind hpos.symm, List.append_nil]
    · rw [Position.eq_nil_of_behind hpos, List.append_nil]
  obtain ⟨rfl, hbehind⟩ := List.append_inj (List.append_cancel_left htext)
    ((h.first.length_eq (by decide)).trans (h'.first.length_eq (by decide)).symm)
  obtain rfl : gap' = gap := by rw [← h'.gap_eq, ← hbehind, h.gap_eq]
  obtain ⟨rfl, rfl⟩ := List.append_inj (List.append_cancel_left hbehind)
    ((h.second.length_eq (by decide)).trans (h'.second.length_eq (by decide)).symm)
  exact ⟨rfl, rfl, rfl, rfl⟩

end HasWords

theorem scan_divided {first divider second rest : List Char} {after : List Token}
    (hfirst : IsKeyword .ELSE first) (hd : IsDivider divider) (hsecond : IsKeyword .IF second)
    (hrest : nameLength rest = 0) {dataFollow : Bool} {next : Position}
    (h : Place.scan ⟨false, dataFollow, next, rest⟩ = .ok after) (atStart : Bool) (pos : Position) :
    ∃ u v after',
      Place.scan ⟨atStart, dataFollow, pos, first ++ (divider ++ (second ++ rest))⟩ =
        .ok (u :: v :: after') ∧
      u.kind = .keyword .ELSE ∧ v.kind = .keyword .IF ∧ List.Forall₂ Alike after after' := by
  have helse := cuts_else hfirst (hd.nameLength (second ++ rest)) (hd.followingIf? (second ++ rest))
    atStart dataFollow pos
  obtain ⟨between, hbetween⟩ := reaches_gap (hd.gap (second ++ rest)) dataFollow (pos.after first)
  have hif := cuts_if hsecond hrest false dataFollow between
  obtain ⟨after', hafter, halike⟩ := scan_moved h (between.after second)
  have hr := Reaches.cut helse (hbetween.append (.cut hif (.here _)))
  refine ⟨⟨.keyword .ELSE, String.ofList first, pos⟩, ⟨.keyword .IF, String.ofList second, between⟩,
    after', ?_, rfl, rfl, halike⟩
  rw [hr.scan]
  exact congrArg _ hafter

/-- With a comment between its two words the compound word is cut into two tokens; nothing else
changes but the places behind it. -/
theorem scan_parted {source : String} {before after : List Token} {t : Token}
    (h : scan source = .ok (before ++ t :: after)) (ht : t.kind = .keyword .ELSEIF) :
    ∃ head first gap second rest, HasWords source head first gap second rest ∧
      t.pos = .behind head ∧ ∀ divider, IsDivider divider → ∃ u v after',
        scan (dividedText head first divider second rest) = .ok (before ++ u :: v :: after') ∧
        u.kind = .keyword .ELSE ∧ v.kind = .keyword .IF ∧ List.Forall₂ Alike after after' := by
  obtain ⟨⟨atStart, dataFollow, pos, ahead⟩, ⟨start, follow, next, rest⟩, hbefore, hcut, hafter⟩ :=
    exists_cut (p := .start source) h ht
  obtain ⟨hpos, hstart, hfollow, first, gap, second, hahead, hfirst, hgap, hsecond, hrest⟩ :=
    hcut.exists_words ht
  dsimp only at hpos hstart hfollow hahead hrest
  subst hpos hstart hfollow hahead
  obtain ⟨head, hsource, hpos⟩ := hbefore.pos_eq
  refine ⟨head, first, gap, second, rest, ⟨by simpa using hsource, hfirst, hgap, hsecond⟩, hpos,
    fun divider hd => ?_⟩
  obtain ⟨u, v, after', hscan, hu, hv, halike⟩ :=
    scan_divided hfirst hd hsecond hrest hafter atStart t.pos
  refine ⟨u, v, after', ?_, hu, hv, halike⟩
  obtain ⟨e, more, rfl, he⟩ := exists_stop (hfirst.upper_eq (by decide))
  have htext : head ++ e :: more ++ divider ++ second ++ rest =
      head ++ e :: (more ++ (divider ++ (second ++ rest))) := by simp
  have hhead := (hbefore.tail (v := []) he hsource rfl (more ++ (divider ++ (second ++ rest)))).scan
  rw [Place.withAhead, Place.withAhead, List.nil_append] at hhead
  rw [dividedText, htext, scan, String.toList_ofList]
  exact hhead.trans (congrArg _ hscan)

end Token

namespace Parser

variable {before ts us : List Token}

def letsClosed : List Token → Bool
  | [] => true
  | t :: ts =>
    (t.kind != .macroWord .LET || ts.any (·.kind == .symbol .semicolon)) && letsClosed ts

theorem line_append (h : before.any (·.kind == .symbol .semicolon) = true) (ts : List Token) :
    line (before ++ ts) = line before := by
  induction before with
  | nil => cases h
  | cons t before ih =>
    unfold line at ih ⊢
    rw [List.cons_append, List.takeWhile_cons, List.takeWhile_cons]
    split
    · rename_i hk
      rw [List.any_cons, beq_eq_false_iff_ne.mpr (bne_iff_ne.mp hk), Bool.false_or] at h
      rw [ih h]
    · rfl

theorem forall₂_line (h : List.Forall₂ Token.Alike ts us) :
    List.Forall₂ Token.Alike (line ts) (line us) := by
  induction h with
  | nil => exact .nil
  | cons ha _ ih =>
    unfold line at ih ⊢
    rw [List.takeWhile_cons, List.takeWhile_cons, ha.kind]
    split
    · exact .cons ha ih
    · exact .nil

theorem Parted.of_alike (h : List.Forall₂ Token.Alike ts us) : Parted ts us := by
  induction h with
  | nil => exact .nil
  | cons ha hr ih => exact .cons ha (fun _ => forall₂_line hr) ih

/-- Parted words stay so behind other tokens, unless a `%LET` statement among these goes on. -/
theorem Parted.behind (hlet : letsClosed before = true) (h : Parted ts us) :
    Parted (before ++ ts) (before ++ us) := by
  induction before with
  | nil => exact h
  | cons t before ih =>
    rw [letsClosed, Bool.and_eq_true, Bool.or_eq_true] at hlet
    refine .cons (.refl t) (fun hk => ?_) (ih hlet.2)
    have hclosed := hlet.1.resolve_left (by simp [hk])
    rw [List.append_eq, List.append_eq, line_append hclosed, line_append hclosed]
    exact List.forall₂_same.mpr fun t _ => .refl t

end Parser

end StepLang
