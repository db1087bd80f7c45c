import StepLang.Proofs.Token.Gaps
import StepLang.Proofs.Token.Numerals

/-! # The text of a number

A number begins with a digit, or with a point and a digit, and goes on with digits and at most one
point. Such a text is a numeral, so reading it as a number does not fail.
-/

namespace StepLang.Token

def startsNumber (c : Char) (cs : List Char) : Bool :=
  c.isDigit || c == '.' && startsDigit cs

/-- The characters with which a number goes on: digits, and a point if none was before. -/
def numberTail (seenPoint : Bool) : List Char → List Char
  | [] => []
  | c :: cs =>
    if c.isDigit then c :: numberTail seenPoint cs
    else if c == '.' && !seenPoint then c :: numberTail true cs
    else []

/-- The token of a number whose text is read by `read`, or the text if it is not read. -/
def readNumber (read : String → Option Float) (c : Char) (cs : List Char) :
    Except String (Kind × Nat) :=
  let tail := numberTail (c == '.') cs
  let text := String.ofList (c :: tail)
  match read text with
  | some x => .ok (.number x, tail.length)
  | none => .error text

theorem numberTail_seen (cs : List Char) : numberTail true cs = cs.takeWhile Char.isDigit := by
  induction cs with
  | nil => rfl
  | cons c cs ih =>
    rw [numberTail, ih, Bool.not_true, Bool.and_false, if_neg Bool.false_ne_true,
      List.takeWhile_cons]

/-- The point behind the digits of a number and the digits behind it. -/
def pointTail : List Char → List Char
  | '.' :: cs => '.' :: cs.takeWhile Char.isDigit
  | _ => []

theorem pointTail_of_ne {cs : List Char} (h : ∀ rest, cs ≠ '.' :: rest) : pointTail cs = [] := by
  unfold pointTail
  split
  · exact absurd rfl (h _)
  · rfl

theorem numberTail_unseen (cs : List Char) :
    numberTail false cs = cs.takeWhile Char.isDigit ++ pointTail (cs.dropWhile Char.isDigit) := by
  induction cs with
  | nil => rfl
  | cons c cs ih =>
    rw [numberTail, List.takeWhile_cons, List.dropWhile_cons]
    split
    · rw [ih, List.cons_append]
    · rw [numberTail_seen, Bool.not_false, Bool.and_true, List.nil_append]
      split
      · rename_i hpoint
        obtain rfl := beq_iff_eq.mp hpoint
        rfl
      · rename_i hpoint
        refine (pointTail_of_ne fun rest hrest => hpoint ?_).symm
        exact beq_iff_eq.mpr (List.cons.inj hrest).1

theorem isDigit_takeWhile (cs : List Char) :
    ∀ c ∈ cs.takeWhile Char.isDigit, c.isDigit = true :=
  fun _ hc => List.mem_takeWhile_imp hc

section Reading

variable {c : Char} {cs : List Char}

theorem exists_numeral_of_point (h : startsDigit cs = true) :
    ∃ n : Numeral, n.chars = '.' :: numberTail true cs ∧
      numeral '.' cs = (.number n.value, (numberTail true cs).length) := by
  have hne : cs.takeWhile Char.isDigit ≠ [] := by
    cases cs with
    | nil => cases h
    | cons d ds =>
      have hd : d.isDigit = true := h
      rw [List.takeWhile_cons_of_pos hd]
      exact List.cons_ne_nil _ _
  rw [numberTail_seen]
  exact ⟨⟨[], some (cs.takeWhile Char.isDigit), isDigit_takeWhile cs, hne⟩, rfl, rfl⟩

theorem exists_numeral_of_digit (hc : c.isDigit = true) (hpoint : c ≠ '.') :
    ∃ n : Numeral, n.chars = c :: numberTail false cs ∧
      numeral c cs = (.number n.value, (numberTail false cs).length) := by
  have hwhole : ∀ d ∈ c :: cs.takeWhile Char.isDigit, d.isDigit = true :=
    List.forall_mem_cons.mpr ⟨hc, isDigit_takeWhile cs⟩
  rw [numberTail_unseen, numeral]
  dsimp only
  rw [if_neg hpoint, drop_length_takeWhile]
  by_cases hfraction : ∃ rest, cs.dropWhile Char.isDigit = '.' :: rest
  · obtain ⟨rest, hrest⟩ := hfraction
    rw [hrest]
    refine ⟨⟨c :: cs.takeWhile Char.isDigit, some (rest.takeWhile Char.isDigit),
      List.forall_mem_append.mpr ⟨hwhole, isDigit_takeWhile rest⟩, List.cons_ne_nil _ _⟩, rfl,
      Prod.ext rfl ?_⟩
    change _ + 1 + _ = (_ ++ '.' :: _).length
    rw [List.length_append, List.length_cons, Nat.add_right_comm, Nat.add_assoc]
  · rw [pointTail_of_ne (not_exists.mp hfraction), List.append_nil]
    split
    · rename_i rest hrest
      exact absurd ⟨rest, hrest⟩ hfraction
    · exact ⟨⟨c :: cs.takeWhile Char.isDigit, none, (List.append_nil _).symm ▸ hwhole,
        List.cons_ne_nil _ _⟩, List.append_nil _, rfl⟩

/-- The text of a number is a numeral, and the scanner cuts it as a whole. -/
theorem exists_numeral (h : startsNumber c cs = true) :
    ∃ n : Numeral, n.chars = c :: numberTail (c == '.') cs ∧
      numeral c cs = (.number n.value, (numberTail (c == '.') cs).length) := by
  by_cases hpoint : c = '.'
  · subst hpoint
    exact exists_numeral_of_point h
  · have hseen : (c == '.') = false := beq_eq_false_iff_ne.mpr hpoint
    rw [startsNumber, hseen, Bool.false_and, Bool.or_false] at h
    rw [hseen]
    exact exists_numeral_of_digit h hpoint

theorem exists_readNumber {read : String → Option Float}
    (hread : ∀ n : Numeral, (read n.text).isSome = true) (h : startsNumber c cs = true) :
    ∃ x, readNumber read c cs = .ok (.number x, (numeral c cs).2) := by
  obtain ⟨n, hchars, hnumeral⟩ := exists_numeral h
  obtain ⟨x, hx⟩ := Option.isSome_iff_exists.mp (hread n)
  rw [Numeral.text, hchars] at hx
  exact ⟨x, by rw [readNumber, hnumeral, hx]⟩

theorem readNumber_read? (h : startsNumber c cs = true) :
    readNumber Number.read? c cs = .ok (numeral c cs) := by
  obtain ⟨n, hchars, hnumeral⟩ := exists_numeral h
  have hx := n.read?_text
  rw [Numeral.text, hchars] at hx
  rw [readNumber, hnumeral, hx]

theorem piece_of_startsNumber (atStart : Bool) (h : startsNumber c cs = true) :
    piece atStart c cs = .ok (.token (numeral c cs).1, (numeral c cs).2) := by
  rcases (Bool.or_eq_true _ _).mp h with hc | hpoint
  · exact piece_of_isDigit hc
  · obtain ⟨hpoint, hstart⟩ := Bool.and_eq_true_iff.mp hpoint
    obtain rfl := beq_iff_eq.mp hpoint
    exact if_pos hstart

end Reading

/-! ### Scanning by pieces -/

/-- How the piece of text is cut that starts with a character at a position. -/
abbrev Cut := Bool → Position → Char → List Char → Except Error (Piece × Nat)

/-- The tokens of the rest of a text, as `scanFrom` makes them of the pieces that `cut` gives. -/
def scanPieces (cut : Cut) (atStart dataFollow : Bool) (pos : Position) (cs : List Char) :
    Except Error (List Token) :=
  match cs with
  | [] => .ok [⟨.endOfInput, "", pos⟩]
  | c :: cs =>
    match cut atStart pos c cs with
    | .error e => .error e
    | .ok (.gap, n) => scanPieces cut atStart dataFollow (pos.after (c :: cs.take n)) (cs.drop n)
    | .ok (.token kind, n) =>
      let text := c :: cs.take n
      let rest := cs.drop n
      let next := pos.after text
      let token : Token := ⟨kind, lexemeOf kind text, pos⟩
      if kind = .symbol .semicolon ∧ dataFollow then
        let skipped := lineLength rest
        let lines := rest.drop skipped
        let first := next.after (rest.take skipped)
        let block := dataBlock lines
        let last := first.after (lines.take block.length)
        let body : Token := ⟨.dataLines (String.ofList block.body), "", ⟨first.line, 1⟩⟩
        let close : Token := ⟨.symbol .semicolon, if block.closed then ";" else "", last⟩
        return token :: body :: close ::
          (← scanPieces cut true false last (lines.drop block.length))
      else
        let dataFollow :=
          dataFollow || (kind == .keyword .DATALINES && atStart && semicolonFollows rest)
        return token :: (← scanPieces cut (kind == .symbol .semicolon) dataFollow next rest)
termination_by cs.length
decreasing_by all_goals simp +zetaDelta only [List.length_drop, List.length_cons]; omega

def cutPiece : Cut := fun atStart pos c cs =>
  match piece atStart c cs with
  | .error fault => .error (.lexical fault pos)
  | .ok p => .ok p

/-- The pieces of text, where that of a number is cut first and then read by `read`. -/
def cutReading (read : String → Option Float) : Cut := fun atStart pos c cs =>
  if startsNumber c cs then
    match readNumber read c cs with
    | .error text => .error (.malformed (.invalidNumber text) pos)
    | .ok (kind, n) => .ok (.token kind, n)
  else cutPiece atStart pos c cs

/-- The tokens of a program text whose numbers are read by `read`. -/
def scanReading (read : String → Option Float) (source : String) : Except Error (List Token) :=
  scanPieces (cutReading read) true false .start source.toList

theorem scanFrom_eq (atStart dataFollow : Bool) (pos : Position) (cs : List Char) :
    scanFrom atStart dataFollow pos cs = scanPieces cutPiece atStart dataFollow pos cs := by
  fun_induction scanFrom atStart dataFollow pos cs with
  | case1 => rw [scanPieces]
  | case2 =>
    rename_i hpiece
    rw [scanPieces, cutPiece, hpiece]
  | case3 =>
    rename_i hpiece ih
    rw [scanPieces, cutPiece, hpiece]
    exact ih
  | case4 =>
    rename_i hpiece _ _ _ _ hdata _ _ _ _ _ _ _ ih
    rw [scanPieces, cutPiece, hpiece]
    dsimp only
    rw [if_pos hdata, ih]
    rfl
  | case5 =>
    rename_i hpiece _ _ _ _ hdata _ ih
    rw [scanPieces, cutPiece, hpiece]
    dsimp only
    rw [if_neg hdata, ih]

theorem exists_cut_of_scanPieces {cut : Cut} {atStart dataFollow : Bool} {pos : Position}
    {cs : List Char} {e : Error} (h : scanPieces cut atStart dataFollow pos cs = .error e) :
    ∃ atStart pos c cs, cut atStart pos c cs = .error e := by
  fun_induction scanPieces cut atStart dataFollow pos cs with
  | case1 => cases h
  | case2 =>
    rename_i hcut
    cases h
    exact ⟨_, _, _, _, hcut⟩
  | case3 =>
    rename_i ih
    exact ih h
  | case4 =>
    rename_i ih
    generalize hrest : scanPieces _ _ _ _ _ = r at h
    cases r with
    | error e =>
      cases h
      exact ih hrest
    | ok rest => cases h
  | case5 =>
    rename_i ih
    generalize hrest : scanPieces _ _ _ _ _ = r at h
    cases r with
    | error e =>
      cases h
      exact ih hrest
    | ok rest => cases h

theorem scanReading_read? : scanReading Number.read? = scan := by
  have hcut : cutReading Number.read? = cutPiece := by
    funext atStart pos c cs
    unfold cutReading
    split
    · rename_i h
      rw [readNumber_read? h, cutPiece, piece_of_startsNumber atStart h]
    · rfl
  funext source
  rw [scanReading, hcut, scan, scanFrom_eq]

theorem exists_lexical_of_cutPiece {atStart : Bool} {pos : Position} {c : Char} {cs : List Char}
    {e : Error} (h : cutPiece atStart pos c cs = .error e) : ∃ fault, e = .lexical fault pos := by
  unfold cutPiece at h
  split at h
  · rename_i fault _
    cases h
    exact ⟨fault, rfl⟩
  · cases h

/-- With a reader that takes every numeral, only text that is no token cannot be scanned. -/
theorem exists_lexical_of_scanReading {read : String → Option Float}
    (hread : ∀ n : Numeral, (read n.text).isSome = true) {source : String} {e : Error}
    (h : scanReading read source = .error e) : ∃ fault pos, e = .lexical fault pos := by
  obtain ⟨atStart, pos, c, cs, hcut⟩ := exists_cut_of_scanPieces h
  unfold cutReading at hcut
  split at hcut
  · rename_i hstart
    obtain ⟨x, hx⟩ := exists_readNumber hread hstart
    rw [hx] at hcut
    cases hcut
  · obtain ⟨fault, rfl⟩ := exists_lexical_of_cutPiece hcut
    exact ⟨fault, pos, rfl⟩

end StepLang.Token
