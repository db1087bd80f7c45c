import Mathlib.Data.List.Forall2
import StepLang.Proofs.Token.Gaps

/-! # Tokens in their text

The tokens of a scanned text stand in it one behind the other: each token is a stretch of the text
at the place that it carries, and between two of them nothing but a gap is left out. The end of
input comes once, behind all others.
-/

namespace StepLang.Token

/-! ### Stretches of a text -/

/-- A stretch of a text: the index of its first character and the one behind its last. -/
structure Range where
  start : Nat
  stop : Nat

def Range.of (r : Range) (text : List Char) : List Char :=
  (text.take r.stop).drop r.start

/-- The token stands in the text at the stretch. -/
structure Occupies (text : List Char) (t : Token) (r : Range) : Prop where
  nonempty : r.start < r.stop
  inside : r.stop ≤ text.length
  spelled : Spells t.kind t.lexeme (r.of text)
  place : t.pos = .behind (text.take r.start)

def isBody (t : Token) : Bool :=
  t.kind matches .dataLines _

/-- The tokens that are cut from a text, each with whether data lines follow it. The end of input,
the data lines and the semicolon right behind them are not. -/
def cutFrom (behindBody : Bool) : List Token → List (Token × Bool)
  | [] => []
  | t :: rest =>
    if behindBody || !t.kind.isCut then cutFrom t.isBody rest
    else (t, rest.head?.any isBody) :: cutFrom false rest

def cut (tokens : List Token) : List (Token × Bool) :=
  cutFrom false tokens

def opensStatement (before : List (Token × Bool)) : Bool :=
  before.getLast?.all fun p => p.1.kind == .symbol .semicolon

/-- The tokens end with the DATALINES of a statement and its semicolon. -/
def OpensData (before : List (Token × Bool)) : Prop :=
  ∃ init word semicolon, before = init ++ [word, semicolon] ∧ opensStatement init = true ∧
    word.1.kind = .keyword .DATALINES ∧ semicolon.1.kind = .symbol .semicolon

/-- What stands between the tokens `before` and the next one: a gap, and in front of it the rest of
the line and the data lines if such follow. -/
inductive Between (before : List (Token × Bool)) (cs rest : List Char) : Prop
  | gap (hb : ∀ p ∈ before.getLast?, p.2 = false) (h : Gap (opensStatement before) cs rest)
  | data {line lines more : List Char} (hb : ∀ p ∈ before.getLast?, p.2 = true)
    (ho : OpensData before) (hl : IsLine line cs lines) (hd : DataLines lines more)
    (h : Gap true more rest)

/-- The index of the first stretch, or of the end of the text. -/
def startOf (text : List Char) (ranges : List Range) : Nat :=
  (ranges.head?.map Range.start).getD text.length

/-- The tokens stand in a text from an index on, behind the tokens `before`, and nothing but gaps is
left out. -/
structure Tiling (text : List Char) (before : List (Token × Bool)) (done : Nat)
    (tokens : List (Token × Bool)) (ranges : List Range) : Prop where
  occupies : List.Forall₂ (fun p r => Occupies text p.1 r) tokens ranges
  ordered : ranges.Pairwise fun r r' => r.stop ≤ r'.start
  behind : ∀ r ∈ ranges, done ≤ r.start
  first : Gap (opensStatement before) (text.drop done) (text.drop (startOf text ranges))
  later : ∀ left p r right, tokens.zip ranges = left ++ (p, r) :: right →
    Between (before ++ left.map Prod.fst ++ [p]) (text.drop r.stop)
      (text.drop (startOf text (right.map Prod.snd)))

namespace Tiling

variable {text : List Char} {before tokens : List (Token × Bool)} {done next : Nat}
  {ranges : List Range}

theorem nil (text : List Char) (before : List (Token × Bool)) :
    Tiling text before text.length [] [] where
  occupies := .nil
  ordered := .nil
  behind := by simp
  first := .none _
  later := by simp

theorem gap (h : Tiling text before next tokens ranges) (hle : done ≤ next)
    (hgap : ∀ rest, Gap (opensStatement before) (text.drop next) rest →
      Gap (opensStatement before) (text.drop done) rest) :
    Tiling text before done tokens ranges where
  occupies := h.occupies
  ordered := h.ordered
  behind r hr := Nat.le_trans hle (h.behind r hr)
  first := hgap _ h.first
  later := h.later

theorem cons {p : Token × Bool} {r : Range} (h : Tiling text (before ++ [p]) next tokens ranges)
    (hr : Occupies text p.1 r) (hdone : r.start = done) (hle : r.stop ≤ next)
    (hb : Between (before ++ [p]) (text.drop r.stop) (text.drop (startOf text ranges))) :
    Tiling text before done (p :: tokens) (r :: ranges) where
  occupies := .cons hr h.occupies
  ordered := .cons (fun r' hr' => Nat.le_trans hle (h.behind r' hr')) h.ordered
  behind := by
    refine List.forall_mem_cons.mpr ⟨hdone.ge, fun r' hr' => ?_⟩
    have := h.behind r' hr'
    have := hr.nonempty
    omega
  first := by
    rw [startOf, List.head?_cons, Option.map_some, Option.getD_some, hdone]
    exact .none _
  later left p' r' right hzip := by
    rw [List.zip_cons_cons] at hzip
    cases left with
    | nil =>
      obtain ⟨hpair, hright⟩ := List.cons.inj hzip
      cases hpair
      have hranges : right.map Prod.snd = ranges := by
        rw [← hright]
        exact List.map_snd_zip h.occupies.length_eq.ge
      rw [hranges]
      simpa using hb
    | cons x left =>
      obtain ⟨rfl, hrest⟩ := List.cons.inj hzip
      simpa using h.later left p' r' right hrest

end Tiling

/-! ### Runs of the scanner -/

/-- The text of the data lines behind the semicolon that opens them, from the rest of its line
on. -/
def dataLength (rest : List Char) : Nat :=
  lineLength rest + (dataBlock (rest.drop (lineLength rest))).length

theorem dataLines_dataLength (rest : List Char) : ∃ line lines, IsLine line rest lines ∧
    DataLines lines (rest.drop (dataLength rest)) := by
  rw [dataLength, ← List.drop_drop]
  exact ⟨_, _, isLine_drop rest, dataLines_dataBlock _⟩

/-- The tokens of the rest of a text by the steps of the scanner: the end, a gap, a token, or the
semicolon in front of data lines with the two tokens that these give. -/
inductive Scans : (atStart dataFollow : Bool) → Position → List Char → List Token → Prop
  | stop {atStart dataFollow : Bool} {pos : Position} :
    Scans atStart dataFollow pos [] [⟨.endOfInput, "", pos⟩]
  | gap {atStart dataFollow : Bool} {pos : Position} {c : Char} {cs : List Char} {n : Nat}
    {tokens : List Token} (hp : piece atStart c cs = .ok (.gap, n))
    (h : Scans atStart dataFollow (pos.after (c :: cs.take n)) (cs.drop n) tokens) :
    Scans atStart dataFollow pos (c :: cs) tokens
  | token {atStart dataFollow : Bool} {pos : Position} {c : Char} {cs : List Char} {kind : Kind}
    {n : Nat} {tokens : List Token} (hp : piece atStart c cs = .ok (.token kind, n))
    (hd : ¬ (kind = .symbol .semicolon ∧ dataFollow = true))
    (h : Scans (kind == .symbol .semicolon)
      (dataFollow || (kind == .keyword .DATALINES && atStart && semicolonFollows (cs.drop n)))
      (pos.after (c :: cs.take n)) (cs.drop n) tokens) :
    Scans atStart dataFollow pos (c :: cs) (⟨kind, lexemeOf kind (c :: cs.take n), pos⟩ :: tokens)
  | data {atStart : Bool} {pos : Position} {c : Char} {cs : List Char} {n : Nat}
    {body close : Token} {text : String} {tokens : List Token}
    (hp : piece atStart c cs = .ok (.token (.symbol .semicolon), n))
    (hbody : body.kind = .dataLines text) (hclose : close.kind = .symbol .semicolon)
    (h : Scans true false
      ((pos.after (c :: cs.take n)).after ((cs.drop n).take (dataLength (cs.drop n))))
      ((cs.drop n).drop (dataLength (cs.drop n))) tokens) :
    Scans atStart true pos (c :: cs)
      (⟨.symbol .semicolon, lexemeOf (.symbol .semicolon) (c :: cs.take n), pos⟩ :: body :: close ::
        tokens)

theorem scans_of_scanFrom {atStart dataFollow : Bool} {pos : Position} {cs : List Char}
    {tokens : List Token} (h : scanFrom atStart dataFollow pos cs = .ok tokens) :
    Scans atStart dataFollow pos cs tokens := by
  fun_induction scanFrom atStart dataFollow pos cs generalizing tokens with
  | case1 =>
    cases h
    exact .stop
  | case2 => cases h
  | case3 =>
    rename_i hpiece ih
    exact .gap hpiece (ih h)
  | case4 =>
    rename_i hpiece _ _ _ _ hdata _ _ _ _ _ _ _ ih
    obtain ⟨rfl, rfl⟩ := hdata
    generalize hrest : scanFrom _ _ _ _ = r at h
    cases r with
    | error e => cases h
    | ok rest =>
      cases h
      refine .data hpiece rfl rfl ?_
      have := ih hrest
      rw [dataLength, List.take_add, Position.after_append, ← List.drop_drop]
      exact this
  | case5 =>
    rename_i hpiece _ _ _ _ hdata _ ih
    generalize hrest : scanFrom _ _ _ _ = r at h
    cases r with
    | error e => cases h
    | ok rest =>
      cases h
      exact .token hpiece hdata (ih hrest)

theorem isBody_of_isCut {t : Token} (h : t.kind.isCut = true) : t.isBody = false := by
  obtain ⟨kind, lexeme, pos⟩ := t
  cases kind <;> first | rfl | cases h

namespace Scans

variable {atStart dataFollow : Bool} {pos : Position} {cs : List Char} {tokens : List Token}

/-- The scanner gives no data lines where it starts. -/
theorem isBody_head (h : Scans atStart dataFollow pos cs tokens) :
    tokens.head?.any isBody = false := by
  induction h with
  | stop => rfl
  | gap _ _ ih => exact ih
  | token hp => exact isBody_of_isCut (spelled_of_piece hp).cut
  | data => rfl

/-- The end of input comes once, behind all others and at the end of the text. -/
theorem exists_end (h : Scans atStart dataFollow pos cs tokens) : ∃ init,
    tokens = init ++ [⟨.endOfInput, "", pos.after cs⟩] ∧ ∀ t ∈ init, t.kind ≠ .endOfInput := by
  induction h with
  | stop => exact ⟨[], rfl, by simp⟩
  | @gap _ _ pos c cs n _ hp _ ih =>
    rwa [← Position.after_append, List.cons_append, List.take_append_drop] at ih
  | @token _ _ pos c cs kind n _ hp _ _ ih =>
    rw [← Position.after_append, List.cons_append, List.take_append_drop] at ih
    obtain ⟨init, rfl, hinit⟩ := ih
    refine ⟨_ :: init, rfl, List.forall_mem_cons.mpr ⟨?_, hinit⟩⟩
    rintro rfl
    cases (spelled_of_piece hp).cut
  | @data _ pos c cs n body close _ _ hp hbody hclose _ ih =>
    rw [← Position.after_append, List.take_append_drop, ← Position.after_append, List.cons_append,
      List.take_append_drop] at ih
    obtain ⟨init, rfl, hinit⟩ := ih
    refine ⟨_ :: body :: close :: init, rfl, ?_⟩
    simp only [List.forall_mem_cons]
    exact ⟨by simp, by simp [hbody], by simp [hclose], hinit⟩

end Scans

/-! ### Tiling -/

def cutToken (done : List Char) (kind : Kind) (text : List Char) : Token :=
  ⟨kind, lexemeOf kind text, .behind done⟩

theorem occupies_cutToken {kind : Kind} {done text : List Char} (h : Spelled kind text)
    (hne : text ≠ []) (rest : List Char) :
    Occupies (done ++ text ++ rest) (cutToken done kind text)
      ⟨done.length, (done ++ text).length⟩ where
  nonempty := by simpa using List.length_pos_iff.mpr hne
  inside := by simp
  spelled := by
    have hof : Range.of ⟨done.length, (done ++ text).length⟩ (done ++ text ++ rest) = text := by
      rw [Range.of, List.take_left, List.drop_left]
    rw [hof]
    exact h.spells
  place := by rw [List.append_assoc, List.take_left, cutToken]

/-- A token in front of the others, and what stands between them. -/
theorem Tiling.cutToken {kind : Kind} {done text rest : List Char} {flag : Bool}
    {before tokens : List (Token × Bool)} {next : Nat} {ranges : List Range}
    (hs : Spelled kind text) (hne : text ≠ [])
    (h : Tiling (done ++ text ++ rest) (before ++ [(cutToken done kind text, flag)]) next tokens
      ranges) (hle : (done ++ text).length ≤ next)
    (hb : Between (before ++ [(cutToken done kind text, flag)]) rest
      ((done ++ text ++ rest).drop (startOf (done ++ text ++ rest) ranges))) :
    ∃ r, Tiling (done ++ text ++ rest) before done.length
      ((Token.cutToken done kind text, flag) :: tokens) (r :: ranges) := by
  refine ⟨⟨done.length, (done ++ text).length⟩, h.cons (occupies_cutToken hs hne rest) rfl hle ?_⟩
  rwa [List.drop_left]

/-- The last of the tokens is the DATALINES of a statement, and a semicolon follows. -/
structure Awaits (before : List (Token × Bool)) (cs : List Char) : Prop where
  word : ∃ init p, before = init ++ [p] ∧ opensStatement init = true ∧
    p.1.kind = .keyword .DATALINES
  semicolon : semicolonFollows cs = true

theorem piece_of_isBlank {atStart : Bool} {c : Char} {cs : List Char} {p : Piece} {n : Nat}
    (hc : Text.isBlank c = true) (h : piece atStart c cs = .ok (p, n)) : p = .gap ∧ n = 0 := by
  unfold piece at h
  dsimp only at h
  split at h
  case h_1 | h_2 | h_3 | h_4 =>
    cases h
    exact ⟨rfl, rfl⟩
  case h_30 =>
    have hname : Text.isNameChar c = false := by
      rw [← Bool.not_eq_true]
      intro hname
      rw [Text.isBlank_of_isNameChar hname] at hc
      cases hc
    simp only [Text.isNameChar, Char.isAlphanum, Bool.or_eq_false_iff] at hname
    simp [Text.isNameStart, hname] at h
  all_goals cases hc

theorem semicolonFollows_iff {cs : List Char} :
    semicolonFollows cs = true ↔ (cs.dropWhile Text.isBlank).head? = some ';' := by
  unfold semicolonFollows
  split
  · rename_i hcs
    simp [hcs]
  · rename_i hcs
    constructor
    · intro h
      cases h
    · intro h
      obtain ⟨rest, hrest⟩ := List.head?_eq_some_iff.mp h
      exact (hcs rest hrest).elim

theorem semicolonFollows_cons {c : Char} {cs : List Char} (h : semicolonFollows (c :: cs) = true) :
    c = ';' ∨ Text.isBlank c = true ∧ semicolonFollows cs = true := by
  rw [semicolonFollows_iff] at h ⊢
  by_cases hc : Text.isBlank c = true
  · rw [List.dropWhile_cons_of_pos hc] at h
    exact .inr ⟨hc, h⟩
  · rw [List.dropWhile_cons_of_neg hc, List.head?_cons] at h
    exact .inl (Option.some.inj h)

theorem Awaits.gap {before : List (Token × Bool)} {atStart : Bool} {c : Char} {cs : List Char}
    {n : Nat} (h : Awaits before (c :: cs)) (hp : piece atStart c cs = .ok (.gap, n)) :
    Awaits before (cs.drop n) := by
  rcases semicolonFollows_cons h.semicolon with rfl | ⟨hc, hcs⟩
  · cases hp
  · obtain ⟨-, rfl⟩ := piece_of_isBlank hc hp
    exact ⟨h.word, hcs⟩

theorem Awaits.token {before : List (Token × Bool)} {atStart : Bool} {c : Char} {cs : List Char}
    {kind : Kind} {n : Nat} (h : Awaits before (c :: cs))
    (hp : piece atStart c cs = .ok (.token kind, n)) : kind = .symbol .semicolon := by
  rcases semicolonFollows_cons h.semicolon with rfl | ⟨hc, -⟩
  · cases hp
    rfl
  · obtain ⟨hgap, -⟩ := piece_of_isBlank hc hp
    cases hgap

@[simp] theorem opensStatement_append (before : List (Token × Bool)) (p : Token × Bool) :
    opensStatement (before ++ [p]) = (p.1.kind == .symbol .semicolon) := by
  simp [opensStatement]

theorem cut_cons {t : Token} {tokens : List Token} (ht : t.kind.isCut = true)
    (htokens : tokens.head?.any isBody = false) : cut (t :: tokens) = (t, false) :: cut tokens := by
  simp [cut, cutFrom, ht, htokens]

theorem cut_cons_dataLines {t body close : Token} {text : String} {tokens : List Token}
    (ht : t.kind.isCut = true) (hbody : body.kind = .dataLines text)
    (hclose : close.isBody = false) :
    cut (t :: body :: close :: tokens) = (t, true) :: cut tokens := by
  have hcut : body.kind.isCut = false := by rw [hbody]; rfl
  have hbody : body.isBody = true := by rw [isBody, hbody]
  simp [cut, cutFrom, ht, hcut, hbody, hclose]

theorem append_piece (done : List Char) (c : Char) (cs : List Char) (n : Nat) :
    done ++ (c :: cs) = done ++ (c :: cs.take n) ++ cs.drop n := by
  simp

/-- The induction is along the run of the scanner behind the text `done`, whose tokens are
`before`. -/
theorem Scans.exists_tiling {atStart dataFollow : Bool} {pos : Position} {cs : List Char}
    {tokens : List Token} (h : Scans atStart dataFollow pos cs tokens) (done : List Char)
    (before : List (Token × Bool)) (hpos : pos = .behind done)
    (hstart : atStart = opensStatement before) (hdata : dataFollow = true → Awaits before cs) :
    ∃ ranges, Tiling (done ++ cs) before done.length (cut tokens) ranges := by
  induction h generalizing done before with
  | stop =>
    refine ⟨[], ?_⟩
    rw [List.append_nil]
    exact .nil done before
  | @gap atStart dataFollow pos c cs n tokens hp _ ih =>
    have hsplit := append_piece done c cs n
    obtain ⟨ranges, hranges⟩ := ih (done ++ (c :: cs.take n)) before
      (by rw [hpos, Position.after_behind]) hstart fun hd => (hdata hd).gap hp
    refine ⟨ranges, hsplit ▸ hranges.gap (by simp) fun rest hrest => ?_⟩
    rw [List.drop_left] at hrest
    rw [← hsplit, List.drop_left]
    exact gap_of_piece (hstart ▸ hp) hrest
  | @token atStart dataFollow pos c cs kind n tokens hp hd hs ih =>
    subst hpos
    have hsplit := append_piece done c cs n
    have hspelled := spelled_of_piece hp
    obtain ⟨ranges, hranges⟩ := ih (done ++ (c :: cs.take n))
      (before ++ [(cutToken done kind (c :: cs.take n), false)])
      (Position.after_behind _ _) (by simp [cutToken]) fun hfollow => by
        rw [Bool.or_eq_true] at hfollow
        rcases hfollow with hdf | hword
        · exact absurd ⟨(hdata hdf).token hp, hdf⟩ hd
        · simp only [Bool.and_eq_true, beq_iff_eq] at hword
          obtain ⟨⟨hword, hst⟩, hsemi⟩ := hword
          exact ⟨⟨before, _, rfl, hstart ▸ hst, hword⟩, hsemi⟩
    have hfirst := hranges.first
    rw [List.drop_left] at hfirst
    obtain ⟨r, hr⟩ := Tiling.cutToken hspelled (by simp) hranges (Nat.le_refl _)
      (.gap (by simp) hfirst)
    refine ⟨r :: ranges, ?_⟩
    rw [hsplit, cut_cons hspelled.cut hs.isBody_head]
    exact hr
  | @data atStart pos c cs n body close _ tokens hp hbody hclose _ ih =>
    subst hpos
    have hsplit := append_piece done c cs n
    generalize cs.drop n = rest at hsplit ih
    have hspelled := spelled_of_piece hp
    obtain ⟨init, word, rfl, hinit, hword⟩ := (hdata rfl).word
    have hwhole : done ++ (c :: cs.take n) ++ rest.take (dataLength rest) ++
        rest.drop (dataLength rest) = done ++ (c :: cs.take n) ++ rest := by simp
    obtain ⟨ranges, hranges⟩ := ih (done ++ (c :: cs.take n) ++ rest.take (dataLength rest))
      (init ++ [word] ++ [(cutToken done (.symbol .semicolon) (c :: cs.take n), true)])
      (by rw [Position.after_behind, Position.after_behind])
      (by rw [opensStatement_append]; rfl) (by simp)
    have hfirst := hranges.first
    rw [List.drop_left, opensStatement_append, hwhole] at hfirst
    rw [hwhole] at hranges
    obtain ⟨line, lines, hline, hlines⟩ := dataLines_dataLength rest
    have hopens : OpensData (init ++ [word] ++
        [(cutToken done (.symbol .semicolon) (c :: cs.take n), true)]) :=
      ⟨init, word, _, List.append_assoc _ _ _, hinit, hword, rfl⟩
    obtain ⟨r, hr⟩ := Tiling.cutToken hspelled (by simp) hranges (by simp)
      (.data (by simp) hopens hline hlines hfirst)
    refine ⟨r :: ranges, ?_⟩
    rw [hsplit, cut_cons_dataLines hspelled.cut hbody (by simp [isBody, hclose])]
    exact hr

/-- The tokens of a program stand in its text one behind the other, with nothing but gaps between
them, and the end of input stands behind them at the end of the text. -/
theorem scan_tiles {source : String} {tokens : List Token} (h : scan source = .ok tokens) :
    (∃ ranges, Tiling source.toList [] 0 (cut tokens) ranges) ∧
      ∃ init eof, tokens = init ++ [eof] ∧ eof.kind = .endOfInput ∧
        eof.pos = .behind source.toList ∧ ∀ t ∈ init, t.kind ≠ .endOfInput := by
  have hscans := scans_of_scanFrom h
  constructor
  · exact hscans.exists_tiling [] [] rfl rfl (by simp)
  · obtain ⟨init, htokens, hinit⟩ := hscans.exists_end
    refine ⟨init, _, htokens, rfl, ?_, hinit⟩
    exact Position.after_behind [] source.toList

/-- Two words of a compound keyword on two lines, a comment, and data lines behind more of their
line. -/
theorem scan_tiles_compound :
    scan "else\n if a;*c;datalines ;x\n1\n;;\n/**/b" = .ok
      [⟨.keyword .ELSEIF, "ELSE IF", ⟨1, 1⟩⟩, ⟨.name "a", "a", ⟨2, 5⟩⟩,
        ⟨.symbol .semicolon, ";", ⟨2, 6⟩⟩, ⟨.keyword .DATALINES, "datalines", ⟨2, 10⟩⟩,
        ⟨.symbol .semicolon, ";", ⟨2, 20⟩⟩, ⟨.dataLines "1\n", "", ⟨3, 1⟩⟩,
        ⟨.symbol .semicolon, ";", ⟨5, 1⟩⟩, ⟨.name "b", "b", ⟨5, 5⟩⟩, ⟨.endOfInput, "", ⟨5, 6⟩⟩] ∧
    ∃ ranges, Tiling "else\n if a;*c;datalines ;x\n1\n;;\n/**/b".toList [] 0
      [(⟨.keyword .ELSEIF, "ELSE IF", ⟨1, 1⟩⟩, false), (⟨.name "a", "a", ⟨2, 5⟩⟩, false),
        (⟨.symbol .semicolon, ";", ⟨2, 6⟩⟩, false),
        (⟨.keyword .DATALINES, "datalines", ⟨2, 10⟩⟩, false),
        (⟨.symbol .semicolon, ";", ⟨2, 20⟩⟩, true), (⟨.name "b", "b", ⟨5, 5⟩⟩, false)] ranges := by
  have hscan : scan "else\n if a;*c;datalines ;x\n1\n;;\n/**/b" = .ok
      [⟨.keyword .ELSEIF, "ELSE IF", ⟨1, 1⟩⟩, ⟨.name "a", "a", ⟨2, 5⟩⟩,
        ⟨.symbol .semicolon, ";", ⟨2, 6⟩⟩, ⟨.keyword .DATALINES, "datalines", ⟨2, 10⟩⟩,
        ⟨.symbol .semicolon, ";", ⟨2, 20⟩⟩, ⟨.dataLines "1\n", "", ⟨3, 1⟩⟩,
        ⟨.symbol .semicolon, ";", ⟨5, 1⟩⟩, ⟨.name "b", "b", ⟨5, 5⟩⟩,
        ⟨.endOfInput, "", ⟨5, 6⟩⟩] := by
    decide +kernel
  exact ⟨hscan, (scan_tiles hscan).1⟩

end StepLang.Token
