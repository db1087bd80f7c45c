import StepLang.Proofs.Token.Tiling

/-! # Places of the scanner

The scanner comes to one place of a text after the other, cutting tokens on its way. The tokens of a
text are those that were cut before a place and those that the scanner finds from there, and if it
fails there then so does the whole text.
-/

namespace StepLang.Token

/-- Where the scanner stands: whether a statement would begin there, whether data follow the next
semicolon, the position, and the text ahead. -/
structure Place where
  atStart : Bool
  dataFollow : Bool
  pos : Position
  ahead : List Char

namespace Place

def start (source : String) : Place := ⟨true, false, .start, source.toList⟩

/-- What the scanner finds from a place on. -/
def scan (p : Place) : Except Error (List Token) := scanFrom p.atStart p.dataFollow p.pos p.ahead

end Place

/-- The data lines and their end behind the semicolon that opens them, which ends at `pos`. -/
def dataTokens (pos : Position) (rest : List Char) : List Token :=
  let first := pos.after (rest.take (lineLength rest))
  let block := dataBlock (rest.drop (lineLength rest))
  [⟨.dataLines (String.ofList block.body), "", ⟨first.line, 1⟩⟩,
    ⟨.symbol .semicolon, if block.closed then ";" else "", pos.after (rest.take (dataLength rest))⟩]

/-- The scanner cuts one piece and comes to the place behind it. -/
inductive Cuts : Place → List Token → Place → Prop
  | gap {atStart dataFollow : Bool} {pos : Position} {c : Char} {cs : List Char} {n : Nat}
    (hp : piece atStart c cs = .ok (.gap, n)) :
    Cuts ⟨atStart, dataFollow, pos, c :: cs⟩ []
      ⟨atStart, dataFollow, pos.after (c :: cs.take n), cs.drop n⟩
  | token {atStart dataFollow : Bool} {pos : Position} {c : Char} {cs : List Char} {kind : Kind}
    {n : Nat} (hp : piece atStart c cs = .ok (.token kind, n))
    (hd : ¬ (kind = .symbol .semicolon ∧ dataFollow = true)) :
    Cuts ⟨atStart, dataFollow, pos, c :: cs⟩ [⟨kind, lexemeOf kind (c :: cs.take n), pos⟩]
      ⟨kind == .symbol .semicolon,
        dataFollow || (kind == .keyword .DATALINES && atStart && semicolonFollows (cs.drop n)),
        pos.after (c :: cs.take n), cs.drop n⟩
  | data {atStart : Bool} {pos : Position} {c : Char} {cs : List Char} {n : Nat}
    (hp : piece atStart c cs = .ok (.token (.symbol .semicolon), n)) :
    Cuts ⟨atStart, true, pos, c :: cs⟩
      (⟨.symbol .semicolon, lexemeOf (.symbol .semicolon) (c :: cs.take n), pos⟩ ::
        dataTokens (pos.after (c :: cs.take n)) (cs.drop n))
      ⟨true, false,
        (pos.after (c :: cs.take n)).after ((cs.drop n).take (dataLength (cs.drop n))),
        (cs.drop n).drop (dataLength (cs.drop n))⟩

/-- The scanner comes from one place to another and cuts tokens on its way. -/
inductive Reaches : Place → List Token → Place → Prop
  | here (p : Place) : Reaches p [] p
  | cut {p p' q : Place} {first later : List Token} (h : Cuts p first p')
    (hr : Reaches p' later q) : Reaches p (first ++ later) q

theorem scan_of_cuts {p q : Place} {tokens : List Token} (h : Cuts p tokens q) :
    p.scan = (tokens ++ ·) <$> q.scan := by
  cases h with
  | gap hp =>
    rw [Place.scan, scanFrom, hp]
    exact (id_map _).symm
  | token hp hd =>
    rw [Place.scan, scanFrom, hp]
    dsimp only
    rw [if_neg hd]
    rfl
  | @data _ _ _ cs n hp =>
    rw [Place.scan, scanFrom, hp]
    dsimp only
    generalize cs.drop n = rest
    have hdrop :
        (rest.drop (lineLength rest)).drop (dataBlock (rest.drop (lineLength rest))).length =
          rest.drop (dataLength rest) := List.drop_drop
    rw [if_pos ⟨rfl, rfl⟩, ← Position.after_append, ← List.take_add, hdrop]
    rfl

theorem Cuts.exists_append {p q : Place} {tokens : List Token} (h : Cuts p tokens q) :
    ∃ text, text ≠ [] ∧ p.ahead = text ++ q.ahead ∧ q.pos = p.pos.after text := by
  cases h with
  | gap | token =>
    exact ⟨_, List.cons_ne_nil _ _, by rw [List.cons_append, List.take_append_drop], rfl⟩
  | @data _ pos c cs n _ =>
    refine ⟨c :: cs.take n ++ (cs.drop n).take (dataLength (cs.drop n)), by simp, ?_, ?_⟩
    · rw [List.append_assoc, List.take_append_drop, List.cons_append, List.take_append_drop]
    · rw [Position.after_append]

namespace Reaches

variable {p q r : Place} {tokens later : List Token}

theorem append (h : Reaches p tokens q) (hq : Reaches q later r) :
    Reaches p (tokens ++ later) r := by
  induction h with
  | here => exact hq
  | cut hc _ ih =>
    rw [List.append_assoc]
    exact .cut hc (ih hq)

theorem scan (h : Reaches p tokens q) : p.scan = (tokens ++ ·) <$> q.scan := by
  induction h with
  | here => exact (id_map _).symm
  | @cut p p' q first later hc _ ih =>
    rw [scan_of_cuts hc, ih]
    cases q.scan with
    | error e => rfl
    | ok rest => exact congrArg Except.ok (List.append_assoc first later rest).symm

/-- A place where the scanner fails lets the whole text fail. -/
theorem scan_error (h : Reaches p tokens q) {e : Error} (hq : q.scan = .error e) :
    p.scan = .error e := by
  rw [h.scan, hq]
  rfl

theorem exists_append (h : Reaches p tokens q) :
    ∃ text, p.ahead = text ++ q.ahead ∧ q.pos = p.pos.after text := by
  induction h with
  | here => exact ⟨[], rfl, rfl⟩
  | cut hc _ ih =>
    obtain ⟨text, -, hahead, hpos⟩ := hc.exists_append
    obtain ⟨more, hmore, hpos'⟩ := ih
    exact ⟨text ++ more, by rw [hahead, hmore, List.append_assoc],
      by rw [hpos', hpos, Position.after_append]⟩

theorem pos_eq {source : String} (h : Reaches (.start source) tokens q) :
    ∃ done, source.toList = done ++ q.ahead ∧ q.pos = .behind done := by
  obtain ⟨done, hahead, hpos⟩ := h.exists_append
  exact ⟨done, hahead, hpos.trans (Position.after_behind [] done)⟩

end Reaches

theorem exists_cuts {p : Place} {tokens : List Token} (h : p.scan = .ok tokens) :
    (p.ahead = [] ∧ tokens = [⟨.endOfInput, "", p.pos⟩]) ∨
      ∃ q first later, Cuts p first q ∧ q.scan = .ok later ∧ tokens = first ++ later := by
  obtain ⟨atStart, dataFollow, pos, ahead⟩ := p
  cases ahead with
  | nil =>
    rw [Place.scan, scanFrom] at h
    exact .inl ⟨rfl, (Except.ok.inj h).symm⟩
  | cons c cs =>
    suffices ∃ q first, Cuts ⟨atStart, dataFollow, pos, c :: cs⟩ first q by
      obtain ⟨q, first, hc⟩ := this
      rw [scan_of_cuts hc] at h
      cases hq : q.scan with
      | error e =>
        rw [hq] at h
        cases h
      | ok later =>
        rw [hq] at h
        exact .inr ⟨q, first, later, hc, hq, (Except.ok.inj h).symm⟩
    cases hp : piece atStart c cs with
    | error fault =>
      rw [Place.scan, scanFrom, hp] at h
      cases h
    | ok found =>
      obtain ⟨_ | kind, n⟩ := found
      · exact ⟨_, _, .gap hp⟩
      · by_cases hd : kind = .symbol .semicolon ∧ dataFollow = true
        · obtain ⟨rfl, rfl⟩ := hd
          exact ⟨_, _, .data hp⟩
        · exact ⟨_, _, .token hp hd⟩

theorem exists_reaches {p : Place} {tokens : List Token} (h : p.scan = .ok tokens) :
    ∃ q init, Reaches p init q ∧ q.ahead = [] ∧ tokens = init ++ [⟨.endOfInput, "", q.pos⟩] := by
  induction hn : p.ahead.length using Nat.strong_induction_on generalizing p tokens with
  | _ n ih =>
    rcases exists_cuts h with ⟨hnil, rfl⟩ | ⟨p', first, later, hc, hlater, rfl⟩
    · exact ⟨p, [], .here p, hnil, rfl⟩
    · obtain ⟨text, htext, hahead, -⟩ := hc.exists_append
      have hlt : p'.ahead.length < n := by
        rw [← hn, hahead, List.length_append]
        exact Nat.lt_add_of_pos_left (List.length_pos_iff.mpr htext)
      obtain ⟨q, init, hr, hq, rfl⟩ := ih _ hlt hlater rfl
      exact ⟨q, first ++ init, .cut hc hr, hq, by rw [List.append_assoc]⟩

end StepLang.Token
