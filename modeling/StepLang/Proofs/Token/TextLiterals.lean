import StepLang.Proofs.Token.InStream
import StepLang.Proofs.Token.Places

/-! # Text literals

A literal is a text between two quotes in which each quote is written twice. Literals and texts with
their quotes determine each other, whatever the text holds, so the scanner gives back the text, and
a quote that begins no literal is an error at its own place.
-/

namespace StepLang.Token

/-! ### Writing and reading -/

def isQuote (c : Char) : Bool :=
  c == '\'' || c == '"'

/-- A text with each quote written twice. -/
def doubled (quote : Char) (text : List Char) : List Char :=
  text.flatMap fun c => if c = quote then [c, c] else [c]

def literal (quote : Char) (text : List Char) : List Char :=
  quote :: (doubled quote text ++ [quote])

theorem doubled_cons (quote c : Char) (text : List Char) : doubled quote (c :: text) =
    if c = quote then c :: c :: doubled quote text else c :: doubled quote text := by
  rw [doubled, List.flatMap_cons]
  split <;> rfl

variable {quote : Char} {cs text following : List Char} {n : Nat}

/-- The induction is on the text; a quote in it is two characters of the literal. -/
theorem quoted?_doubled (text : List Char) (hf : following.head? ≠ some quote) :
    quoted? quote (doubled quote text ++ quote :: following) =
      some (text, (doubled quote text).length + 1) := by
  induction text with
  | nil =>
    cases following with
    | nil => simp [doubled, quoted?]
    | cons d ds =>
      have hd : d ≠ quote := by simpa using hf
      simp [doubled, quoted?, hd]
  | cons c text ih =>
    rw [doubled_cons]
    split
    · rename_i hc
      subst hc
      rw [List.cons_append, List.cons_append, quoted?, if_pos rfl]
      dsimp only
      rw [if_pos rfl, ih]
      rfl
    · rename_i hc
      rw [List.cons_append, quoted?.eq_def]
      dsimp only
      rw [if_neg hc, ih]
      rfl

/-- The induction follows the reader, which looks at two characters where the first is a quote. -/
theorem exists_doubled_of_quoted? (h : quoted? quote cs = some (text, n)) : ∃ following,
    cs = doubled quote text ++ quote :: following ∧ following.head? ≠ some quote ∧
      n = (doubled quote text).length + 1 := by
  fun_induction quoted? quote cs generalizing text n with
  | case1 => cases h
  | case2 ds ih =>
    obtain ⟨⟨s, k⟩, hs, hpair⟩ := Option.map_eq_some_iff.mp h
    cases hpair
    obtain ⟨following, rfl, hf, rfl⟩ := ih hs
    refine ⟨following, ?_, hf, ?_⟩ <;> simp [doubled_cons]
  | case3 d ds hd =>
    cases h
    exact ⟨d :: ds, rfl, by simpa using hd, rfl⟩
  | case4 =>
    cases h
    exact ⟨[], rfl, by simp, rfl⟩
  | case5 c cs hc ih =>
    obtain ⟨⟨s, k⟩, hs, hpair⟩ := Option.map_eq_some_iff.mp h
    cases hpair
    obtain ⟨following, rfl, hf, rfl⟩ := ih hs
    refine ⟨following, ?_, hf, ?_⟩ <;> simp [doubled_cons, hc]

theorem quoted?_eq_some_iff : quoted? quote cs = some (text, n) ↔ ∃ following,
    cs = doubled quote text ++ quote :: following ∧ following.head? ≠ some quote ∧
      n = (doubled quote text).length + 1 := by
  constructor
  · exact exists_doubled_of_quoted?
  · rintro ⟨following, rfl, hf, rfl⟩
    exact quoted?_doubled text hf

theorem quoted?_eq_none (h : ∀ text following, cs = doubled quote text ++ quote :: following →
    following.head? = some quote) : quoted? quote cs = none := by
  rw [Option.eq_none_iff_forall_ne_some]
  rintro ⟨text, n⟩ hsome
  obtain ⟨following, hcs, hf, -⟩ := exists_doubled_of_quoted? hsome
  exact hf (h text following hcs)

/-! ### Pieces -/

theorem piece_quote {atStart : Bool} (hq : isQuote quote = true) : piece atStart quote cs =
    match quoted? quote cs with
    | some (s, n) => .ok (.token (.text (String.ofList s)), n)
    | none => .error .unterminatedText := by
  simp only [isQuote, Bool.or_eq_true, beq_iff_eq] at hq
  rcases hq with rfl | rfl <;> rfl

theorem piece_literal {atStart : Bool} (hq : isQuote quote = true) (text : List Char)
    (hf : following.head? ≠ some quote) :
    piece atStart quote (doubled quote text ++ quote :: following) =
      .ok (.token (.text (String.ofList text)), (doubled quote text).length + 1) := by
  rw [piece_quote hq, quoted?_doubled text hf]

def Kind.isText : Kind → Bool
  | .text _ => true
  | _ => false

theorem isText_numeral (c : Char) (cs : List Char) : (numeral c cs).1.isText = false := by
  unfold numeral
  dsimp only
  split
  · rfl
  · split <;> rfl

theorem isText_macroReference (cs : List Char) : (macroReference cs).1.isText = false := by
  unfold macroReference
  dsimp only
  split <;> rfl

theorem isText_pair {second : Char} {long short : Kind} (hl : long.isText = false)
    (hs : short.isText = false) (cs : List Char) :
    (pair second long short cs).1.isText = false := by
  unfold pair
  split
  · split
    · exact hl
    · exact hs
  · exact hs

theorem isText_of_lookup {table : List (String × Kind)} {word : String} {kind : Kind}
    (ht : ∀ p ∈ table, p.2.isText = false) (h : table.lookup word = some kind) :
    kind.isText = false :=
  ht _ (mem_of_lookup h)

theorem isText_word (c : Char) (cs : List Char) : (word c cs).1.isText = false := by
  unfold word
  dsimp only
  split
  · split <;> rfl
  · rename_i hkind
    exact isText_of_lookup (by decide) hkind
  · rfl

theorem isQuote_of_piece {atStart : Bool} {c : Char} {kind : Kind}
    (h : piece atStart c cs = .ok (.token kind, n)) (hk : kind.isText = true) :
    isQuote c = true := by
  rw [← Bool.not_eq_false]
  intro hc
  refine absurd hk (Bool.eq_false_iff.mp ?_)
  unfold piece at h
  dsimp only at h
  split at h
  all_goals (repeat' split at h) <;> cases h
  all_goals first
    | rfl
    | exact isText_pair rfl rfl _
    | exact isText_macroReference _
    | exact isText_numeral _ _
    | exact isText_word _ _
    | (cases hc; done)
    | skip
  rename_i hword
  exact isText_of_lookup (by decide) hword

/-- A text comes from its literal only. -/
theorem literal_of_piece {atStart : Bool} {c : Char} {s : String}
    (h : piece atStart c cs = .ok (.token (.text s), n)) :
    isQuote c = true ∧ c :: cs.take n = literal c s.toList := by
  have hq := isQuote_of_piece h rfl
  refine ⟨hq, ?_⟩
  rw [piece_quote hq] at h
  cases hr : quoted? c cs with
  | none =>
    rw [hr] at h
    cases h
  | some r =>
    obtain ⟨text, k⟩ := r
    rw [hr] at h
    cases h
    obtain ⟨following, rfl, -, rfl⟩ := exists_doubled_of_quoted? hr
    rw [String.toList_ofList, literal, List.append_cons,
      List.take_left' (by rw [List.length_append, List.length_singleton])]

/-! ### Tokens of a text -/

variable {p q : Place} {tokens : List Token}

/-- The lexeme of a text is the text between quotes. -/
def IsLiteral (lexeme text : String) : Prop :=
  ∃ quote, isQuote quote = true ∧ lexeme.toList = literal quote text.toList

theorem isLiteral_of_cuts (h : Cuts p tokens q) :
    ∀ t ∈ tokens, ∀ s, t.kind = .text s → IsLiteral t.lexeme s := by
  intro t ht s hs
  cases h with
  | gap => cases ht
  | token hp =>
    obtain rfl := List.mem_singleton.mp ht
    subst hs
    obtain ⟨hq, htext⟩ := literal_of_piece hp
    exact ⟨_, hq, by rw [← htext]; exact String.toList_ofList⟩
  | data =>
    rcases List.mem_cons.mp ht with rfl | ht
    · cases hs
    · simp only [dataTokens, List.mem_cons, List.not_mem_nil, or_false] at ht
      rcases ht with rfl | rfl <;> cases hs

theorem isLiteral_of_reaches (h : Reaches p tokens q) :
    ∀ t ∈ tokens, ∀ s, t.kind = .text s → IsLiteral t.lexeme s := by
  induction h with
  | here => simp
  | cut hc _ ih =>
    intro t ht
    rcases List.mem_append.mp ht with ht | ht
    · exact isLiteral_of_cuts hc t ht
    · exact ih t ht

theorem cuts_literal {quote : Char} (hq : isQuote quote = true) (text following : List Char)
    (hf : following.head? ≠ some quote) (atStart dataFollow : Bool) (pos : Position) :
    Cuts ⟨atStart, dataFollow, pos, literal quote text ++ following⟩
      [⟨.text (String.ofList text), String.ofList (literal quote text), pos⟩]
      ⟨false, dataFollow, pos.after (literal quote text), following⟩ := by
  have hcut : Cuts ⟨atStart, dataFollow, pos, quote :: (doubled quote text ++ quote :: following)⟩
      _ _ := .token (piece_literal hq text hf) (by simp)
  have hsplit : doubled quote text ++ quote :: following =
      (doubled quote text ++ [quote]) ++ following := List.append_cons ..
  have hlen : (doubled quote text ++ [quote]).length = (doubled quote text).length + 1 := by simp
  have hword : (Kind.text (String.ofList text) == .keyword .DATALINES) = false := rfl
  rw [hsplit, ← hlen, List.take_left, List.drop_left, hword, Bool.false_and, Bool.false_and,
    Bool.or_false] at hcut
  exact hcut

/-- Where no literal stands behind a quote, the scanner fails at the quote. -/
theorem scan_unterminated {quote : Char} {cs : List Char} (hq : isQuote quote = true)
    (h : ∀ text following, cs = doubled quote text ++ quote :: following →
      following.head? = some quote) (atStart dataFollow : Bool) (pos : Position) :
    Place.scan ⟨atStart, dataFollow, pos, quote :: cs⟩ =
      .error (.lexical .unterminatedText pos) := by
  rw [Place.scan, scanFrom, piece_quote hq, quoted?_eq_none h]

theorem isLiteral_of_scan {source : String} {tokens : List Token} (h : scan source = .ok tokens) :
    ∀ t ∈ tokens, ∀ s, t.kind = .text s → IsLiteral t.lexeme s := by
  obtain ⟨q, init, hr, -, rfl⟩ := exists_reaches (p := .start source) h
  intro t ht s hs
  rcases List.mem_append.mp ht with ht | ht
  · exact isLiteral_of_reaches hr t ht s hs
  · obtain rfl := List.mem_singleton.mp ht
    cases hs

/-- Wherever the scanner comes to a quote, a literal behind it gives its text and its own lexeme,
and scanning goes on right behind the closing quote; a quote that begins no literal is an error with
its place. All texts that are cut, before an error or in a whole program, come from such
literals. -/
theorem literal_round_trip {source : String} (h : Reaches (.start source) tokens q) :
    ∃ done, source.toList = done ++ q.ahead ∧
    (∀ quote text following, isQuote quote = true → following.head? ≠ some quote →
      q.ahead = literal quote text ++ following → scan source =
        (tokens ++
            ⟨.text (String.ofList text), String.ofList (literal quote text), .behind done⟩ :: ·)
          <$> scanFrom false q.dataFollow (.behind (done ++ literal quote text)) following) ∧
    (∀ t ∈ tokens, ∀ s, t.kind = .text s → IsLiteral t.lexeme s) ∧
    (∀ all, scan source = .ok all → ∀ t ∈ all, ∀ s, t.kind = .text s → IsLiteral t.lexeme s) ∧
    (∀ quote cs, isQuote quote = true → q.ahead = quote :: cs →
      (∀ text following, cs = doubled quote text ++ quote :: following →
        following.head? = some quote) →
      scan source = .error (.lexical .unterminatedText (.behind done))) := by
  obtain ⟨atStart, dataFollow, pos, ahead⟩ := q
  obtain ⟨done, hsource, rfl⟩ := h.pos_eq
  refine ⟨done, hsource, ?_, isLiteral_of_reaches h, fun _ => isLiteral_of_scan, ?_⟩
  · rintro quote text following hq hf rfl
    have hcut := cuts_literal hq text following hf atStart dataFollow (.behind done)
    have hscan := (h.append (.cut hcut (.here _))).scan
    rw [Position.after_behind] at hscan
    have hlist (rest : List Token) : tokens ++ ([⟨.text (String.ofList text),
        String.ofList (literal quote text), .behind done⟩] ++ []) ++ rest =
      tokens ++ ⟨.text (String.ofList text), String.ofList (literal quote text), .behind done⟩ ::
        rest := by simp
    rw [funext hlist] at hscan
    exact hscan
  · rintro quote cs hq rfl hnone
    exact h.scan_error (scan_unterminated hq hnone atStart dataFollow (.behind done))

/-- Quotes inside a literal and at its end, and a newline. -/
theorem literal_round_trip_twoLines :
    Reaches (.start "a 'it''s\n''';b") [⟨.name "a", "a", ⟨1, 1⟩⟩]
      ⟨false, false, ⟨1, 3⟩, "'it''s\n''';b".toList⟩ ∧
    scan "a 'it''s\n''';b" = .ok [⟨.name "a", "a", ⟨1, 1⟩⟩,
      ⟨.text "it's\n'", "'it''s\n'''", ⟨1, 3⟩⟩, ⟨.symbol .semicolon, ";", ⟨2, 4⟩⟩,
      ⟨.name "b", "b", ⟨2, 5⟩⟩, ⟨.endOfInput, "", ⟨2, 6⟩⟩] := by
  have hword : word 'a' " 'it''s\n''';b".toList = (.name "a", 0) := by decide +kernel
  have hname : piece true 'a' " 'it''s\n''';b".toList = .ok (.token (.name "a"), 0) := by
    rw [piece_of_isNameStart rfl, hword]
  have hr : Reaches (.start "a 'it''s\n''';b") [⟨.name "a", "a", ⟨1, 1⟩⟩]
      ⟨false, false, ⟨1, 3⟩, "'it''s\n''';b".toList⟩ :=
    .cut (.token hname (by simp)) (.cut (.gap rfl) (.here _))
  refine ⟨hr, ?_⟩
  obtain ⟨done, hdone, hliteral, -⟩ := literal_round_trip hr
  have hdone : done = ['a', ' '] := List.append_cancel_right (by exact hdone.symm)
  subst hdone
  rw [hliteral '\'' "it's\n'".toList ";b".toList rfl (by decide) rfl]
  decide +kernel

end StepLang.Token
