import Mathlib.Order.Nat
import StepLang.Proofs.Parser.Composed
import StepLang.Proofs.Parser.Progress

/-! # Tokens with parted words

The words of `ELSE IF` are one token or two. A parser that reads tokens with the one token, and
reports no error, also reads the tokens in which some of these are parted, unless their texts matter
as they do in a `%LET` statement. The places of the tokens do not matter at all.
-/

namespace StepLang

/-- The tokens differ in their places only. -/
structure Token.Alike (t u : Token) : Prop where
  kind : u.kind = t.kind
  lexeme : u.lexeme = t.lexeme

theorem Token.Alike.refl (t : Token) : t.Alike t := ⟨rfl, rfl⟩

theorem Token.Alike.name? {t u : Token} (h : t.Alike u) : u.name? = t.name? := by
  unfold Token.name?
  rw [h.kind, h.lexeme]

namespace Parser

variable {α β γ : Type} {s s' t t' : State} {ts us : List Token}

/-! ### Parted tokens -/

def line (ts : List Token) : List Token := ts.takeWhile (·.kind != .symbol .semicolon)

/-- The second tokens are the first ones, but for their places, with some of the words `ELSE IF`
parted. None of these is part of a `%LET` statement. -/
inductive Parted : List Token → List Token → Prop
  | nil : Parted [] []
  | cons {t u : Token} {ts us : List Token} (h : t.Alike u)
    (hl : t.kind = .macroWord .LET → List.Forall₂ Token.Alike (line ts) (line us))
    (hr : Parted ts us) : Parted (t :: ts) (u :: us)
  | split {t u v : Token} {ts us : List Token} (ht : t.kind = .keyword .ELSEIF)
    (hu : u.kind = .keyword .ELSE) (hv : v.kind = .keyword .IF) (hr : Parted ts us) :
    Parted (t :: ts) (u :: v :: us)

theorem Parted.isEmpty (h : Parted ts us) : us.isEmpty = ts.isEmpty := by
  cases h <;> rfl

/-- The states of two parsers of which the second has some words parted. -/
structure Twin (s t : State) : Prop where
  ahead : Parted s.ahead t.ahead
  eof : s.eof.Alike t.eof
  isEnd : s.eof.kind = .endOfInput
  arrays : t.arrays = s.arrays

/-- The next word is `ELSE IF` in one token, and parted in the second state. -/
structure Split (s t : State) : Prop where
  joint : s.next.kind = .keyword .ELSEIF
  first : t.next.kind = .keyword .ELSE
  second : t.second.kind = .keyword .IF
  rest : Twin s.step t.step.step
  size : t.step.step.size < t.step.size ∧ t.step.size < t.size

/-- The next tokens are alike. -/
structure Level (s t : State) : Prop where
  next : s.next.Alike t.next
  rest : Twin s.step t.step
  line : s.next.kind = .macroWord .LET →
    List.Forall₂ Token.Alike (line s.step.ahead) (line t.step.ahead)

namespace Twin

theorem level_or_split (h : Twin s t) : Level s t ∨ Split s t := by
  obtain ⟨ahead, eof, last, errors, arrays⟩ := s
  obtain ⟨ahead', eof', last', errors', arrays'⟩ := t
  obtain ⟨hahead, heof, hend, harrays⟩ := h
  dsimp only at hahead
  cases hahead with
  | nil =>
    refine .inl ⟨heof, ⟨.nil, heof, hend, harrays⟩, fun hlet => ?_⟩
    cases hend.symm.trans hlet
  | cons hu hl hr => exact .inl ⟨hu, ⟨hr, heof, hend, harrays⟩, hl⟩
  | split ht hu hv hr =>
    exact .inr ⟨ht, hu, hv, ⟨hr, heof, hend, harrays⟩, Nat.lt_succ_self _, Nat.lt_succ_self _⟩

theorem level (h : Twin s t) (hk : s.next.kind ≠ .keyword .ELSEIF) : Level s t :=
  h.level_or_split.resolve_right fun hsplit => hk hsplit.joint

/-- No other kind of word comes of parting. -/
theorem next_eq (h : Twin s t) {k : Token.Kind} (hk : k ≠ .keyword .ELSEIF ∧ k ≠ .keyword .ELSE) :
    (t.next.kind == k) = (s.next.kind == k) := by
  rcases h.level_or_split with hl | hs
  · rw [hl.next.kind]
  · rw [hs.joint, hs.first, beq_eq_false_iff_ne.mpr hk.1.symm, beq_eq_false_iff_ne.mpr hk.2.symm]

theorem size_step (h : Twin s t) (hk : s.next.kind ≠ .endOfInput) : t.step.size < t.size := by
  rcases h.level_or_split with hl | hs
  · refine size_step_lt ?_ ?_
    · rw [h.eof.kind, h.isEnd]
    · rwa [hl.next.kind]
  · exact hs.size.2

end Twin

namespace Split

theorem joint_name? (h : Split s t) : s.next.name? = none := by
  unfold Token.name?
  rw [h.joint]
  rfl

theorem first_name? (h : Split s t) : t.next.name? = none := by
  unfold Token.name?
  rw [h.first]
  rfl

end Split

namespace Level

theorem second_eq (h : Level s t) {k : Token.Kind}
    (hk : k ≠ .keyword .ELSEIF ∧ k ≠ .keyword .ELSE) :
    (t.second.kind == k) = (s.second.kind == k) := h.rest.next_eq hk

theorem second_name? (h : Level s t) : t.second.name? = s.second.name? := by
  have hs : ∀ s : State, s.second = s.step.next := fun _ => rfl
  rw [hs, hs]
  rcases h.rest.level_or_split with hl | hsplit
  · exact hl.next.name?
  · rw [hsplit.joint_name?, hsplit.first_name?]

end Level

/-! ### Parsers that keep errors -/

/-- The parser keeps the errors that were reported before, and the end of input. -/
def Grows (p : Parser α) : Prop :=
  ∀ s, s.eof.kind = .endOfInput →
    (∃ new, (out p s).2.errors = s.errors ++ new) ∧ (out p s).2.eof = s.eof

namespace Grows

variable {p : Parser α} {f : α → Parser β}

theorem pure {a : α} : Grows (pure a) := fun _ _ => ⟨⟨[], (List.append_nil _).symm⟩, rfl⟩

theorem bind (hp : Grows p) (hf : ∀ a, Grows (f a)) : Grows (p >>= f) := by
  intro s he
  obtain ⟨⟨new, hnew⟩, heof⟩ := hp s he
  generalize hout : out p s = x at hnew heof
  obtain ⟨r, s₁⟩ := x
  cases r with
  | error e =>
    rw [out_bind_of_error hout]
    exact ⟨⟨new, hnew⟩, heof⟩
  | ok a =>
    rw [out_bind_of_ok hout]
    obtain ⟨⟨more, hmore⟩, heof'⟩ := hf a s₁ (heof ▸ he)
    exact ⟨⟨new ++ more, by rw [hmore, hnew, List.append_assoc]⟩, heof'.trans heof⟩

theorem of_out (h : ∀ s, (out p s).2.errors = s.errors ∧ (out p s).2.eof = s.eof) : Grows p :=
  fun s _ => ⟨⟨[], (h s).1.trans (List.append_nil _).symm⟩, (h s).2⟩

theorem look {l : State → α} (h : ∀ s, out p s = (.ok (l s), s)) : Grows p :=
  of_out fun s => by simp only [h s, and_self]

theorem report {e : Error} : Grows (report e) := fun _ _ => ⟨⟨[e], rfl⟩, rfl⟩

theorem recover (hp : Grows p) : Grows (recover p) := by
  intro s he
  obtain ⟨⟨new, hnew⟩, heof⟩ := hp s he
  generalize hout : out p s = x at hnew heof
  obtain ⟨r, s₁⟩ := x
  cases r with
  | ok a =>
    rw [out_recover_of_ok hout]
    exact ⟨⟨new, hnew⟩, heof⟩
  | error e =>
    rw [out_recover_of_error hout]
    refine ⟨⟨new ++ [e], ?_⟩, (State.eof_resync _).trans heof⟩
    rw [State.errors_resync, hnew, List.append_assoc]

end Grows

/-- Keeping the errors reported before passes to what is put together from such parsers. -/
theorem composes_grows : Composes fun p => Grows p where
  pure := .pure
  bind := .bind
  throw _ := .of_out fun _ => ⟨rfl, rfl⟩
  peek := .look out_peek
  advance := .of_out fun s => by
    rw [out_advance]
    exact ⟨rfl, rfl⟩
  sized _ h s := h _ s
  peekNext := .look out_peekNext
  previous := .look out_previous
  atEnd := .look out_atEnd
  isArray name := .look (out_isArray name)
  modify hg := .of_out hg
  report _ := .report
  recover := .recover

/-! ### Parsers that follow each other -/

/-- If the first parser gives a result from the first state, and reports no error, then the second
parser also gives one from the second state and reports none; the results and the states are as the
condition says. A quiet parser is one that reports no error on its own if it gives a result. -/
def Shadows (quiet : Bool) (s t : State) (p q : Parser α)
    (R : α → α → State → State → Prop) : Prop :=
  Twin s t → ∀ a s', out p s = (.ok a, s') → (quiet = true ∨ s'.errors = s.errors) →
    s'.errors = s.errors ∧ ∃ b t', out q t = (.ok b, t') ∧ t'.errors = t.errors ∧ Twin s' t' ∧
      t'.size ≤ t.size ∧ R a b s' t'

/-- Both parsers give one result. -/
abbrev Agree (a b : α) (_ _ : State) : Prop := b = a

/-- Both parsers give one result, and the second one reads a token. -/
abbrev AgreeBehind (t : State) (a b : α) (_ t' : State) : Prop := b = a ∧ t'.size < t.size

namespace Shadows

variable {k : Bool} {p q : Parser α} {f g : α → Parser β} {Q R : α → α → State → State → Prop}
  {T : β → β → State → State → Prop}

theorem twin (h : Twin s t → Shadows k s t p q R) : Shadows k s t p q R :=
  fun ht => h ht ht

theorem pure {a b : α} (h : R a b s t) : Shadows k s t (pure a) (pure b) R := by
  rintro ht _ _ ⟨⟩ -
  exact ⟨rfl, b, t, rfl, rfl, ht, Nat.le_refl _, h⟩

theorem throw {e : Error} : Shadows k s t (throw e) q R := by
  rintro - _ _ ⟨⟩

/-- A parser that gives no result is followed by any. -/
theorem vacuous (h : ∀ a s', out p s ≠ (.ok a, s')) : Shadows k s t p q R :=
  fun _ a s' ha _ => absurd ha (h a s')

theorem mono (h : Shadows k s t p q Q)
    (hR : ∀ a b s' t', t'.size ≤ t.size → Q a b s' t' → R a b s' t') : Shadows k s t p q R := by
  intro ht a s' ha hk
  obtain ⟨he, b, t', hb, het, ht', hle, hQ⟩ := h ht a s' ha hk
  exact ⟨he, b, t', hb, het, ht', hle, hR a b s' t' hle hQ⟩

theorem behind {u : State} (h : Shadows k s t p q Agree) (hlt : t.size < u.size) :
    Shadows k s t p q (AgreeBehind u) :=
  h.mono fun _ _ _ _ hle hab => ⟨hab, hle.trans_lt hlt⟩

theorem loud (h : Shadows true s t p q R) : Shadows k s t p q R :=
  fun ht a s' ha _ => h ht a s' ha (.inl rfl)

theorem of_out {u v : State} {m n : Parser α} (hp : out p s = out m u) (hq : out q t = out n v)
    (hs : u.errors = s.errors) (ht : v.errors = t.errors) (hle : v.size ≤ t.size)
    (htwin : Twin s t → Twin u v) (h : Shadows k u v m n R) : Shadows k s t p q R := by
  intro htw a s' ha hk
  obtain ⟨he, b, t', hb, het, ht', hle', hR⟩ := h (htwin htw) a s' (hp ▸ ha) (by rwa [hs])
  exact ⟨he.trans hs, b, t', hq.trans hb, het.trans ht, ht', hle'.trans hle, hR⟩

theorem bind (hp : Shadows true s t p q R)
    (hf : ∀ a b s₁ t₁, t₁.size ≤ t.size → R a b s₁ t₁ → Shadows k s₁ t₁ (f a) (g b) T) :
    Shadows k s t (p >>= f) (q >>= g) T := by
  intro ht c s' hc hk
  generalize hout : out p s = x
  obtain ⟨r, s₁⟩ := x
  cases r with
  | error e =>
    rw [out_bind_of_error hout] at hc
    cases hc
  | ok a =>
    rw [out_bind_of_ok hout] at hc
    obtain ⟨he₁, b, t₁, hq, het₁, ht₁, hle₁, hR⟩ := hp ht a s₁ hout (.inl rfl)
    obtain ⟨he, d, t', hg, het, ht', hle, hT⟩ :=
      hf a b s₁ t₁ hle₁ hR ht₁ c s' hc (hk.imp_right fun h => h.trans he₁.symm)
    exact ⟨he.trans he₁, d, t', (out_bind_of_ok hq).trans hg, het.trans het₁, ht',
      hle.trans hle₁, hT⟩

/-- Behind a parser that may report errors, those that it reported are kept. -/
theorem bindLoud (hp : Shadows false s t p q R) (hgrows : Grows p) (hrest : ∀ a, Grows (f a))
    (hf : ∀ a b s₁ t₁, t₁.size ≤ t.size → R a b s₁ t₁ → Shadows false s₁ t₁ (f a) (g b) T) :
    Shadows false s t (p >>= f) (q >>= g) T := by
  intro ht c s' hc hk
  obtain ⟨⟨new, hnew⟩, heof⟩ := hgrows s ht.isEnd
  generalize hout : out p s = x at hnew heof
  obtain ⟨r, s₁⟩ := x
  cases r with
  | error e =>
    rw [out_bind_of_error hout] at hc
    cases hc
  | ok a =>
    rw [out_bind_of_ok hout] at hc
    have hclean : s'.errors = s.errors := hk.resolve_left (by simp)
    obtain ⟨⟨more, hmore⟩, -⟩ := hrest a s₁ (by rw [heof]; exact ht.isEnd)
    rw [hc, hnew, List.append_assoc, hclean] at hmore
    have hnil := List.append_eq_nil_iff.mp (List.self_eq_append_right.mp hmore)
    rw [hnil.1, List.append_nil] at hnew
    obtain ⟨-, b, t₁, hq, het₁, ht₁, hle₁, hR⟩ := hp ht a s₁ hout (.inr hnew)
    obtain ⟨-, d, t', hg, het, ht', hle, hT⟩ :=
      hf a b s₁ t₁ hle₁ hR ht₁ c s' hc (.inr (hclean.trans hnew.symm))
    exact ⟨hclean, d, t', (out_bind_of_ok hq).trans hg, het.trans het₁, ht', hle.trans hle₁, hT⟩

theorem look {p q : Parser γ} {f g : γ → Parser β} {l m : State → γ}
    (hp : ∀ s, out p s = (.ok (l s), s)) (hq : ∀ t, out q t = (.ok (m t), t))
    (h : Shadows k s t (f (l s)) (g (m t)) T) : Shadows k s t (p >>= f) (q >>= g) T := by
  intro ht
  rw [out_bind_of_ok (hp s), out_bind_of_ok (hq t)]
  exact h ht

theorem get {f g : State → Parser β} (h : Shadows k s t (f s) (g t) T) :
    Shadows k s t (get >>= f) (get >>= g) T := look out_get out_get h

theorem peek {f g : Token → Parser β} (h : Shadows k s t (f s.next) (g t.next) T) :
    Shadows k s t (peek >>= f) (peek >>= g) T := look out_peek out_peek h

theorem previous {f g : Token → Parser β} (h : Shadows k s t (f s.last) (g t.last) T) :
    Shadows k s t (previous >>= f) (previous >>= g) T := look out_previous out_previous h

theorem peekNext {f g : Token → Parser β} (h : Shadows k s t (f s.second) (g t.second) T) :
    Shadows k s t (peekNext >>= f) (peekNext >>= g) T := look out_peekNext out_peekNext h

theorem atEnd {f g : Bool → Parser β}
    (h : Shadows k s t (f s.ahead.isEmpty) (g s.ahead.isEmpty) T) :
    Shadows k s t (atEnd >>= f) (atEnd >>= g) T := by
  refine twin fun ht => look out_atEnd out_atEnd ?_
  rwa [ht.ahead.isEmpty]

theorem isArray {name : String} {f g : Bool → Parser β}
    (h : Shadows k s t (f (s.arrays.contains (Text.upper name)))
      (g (s.arrays.contains (Text.upper name))) T) :
    Shadows k s t (isArray name >>= f) (isArray name >>= g) T := by
  refine twin fun ht => look (out_isArray name) (out_isArray name) ?_
  rwa [ht.arrays]

theorem check {c : Token.Kind} {f g : Bool → Parser β}
    (hc : c ≠ .keyword .ELSEIF ∧ c ≠ .keyword .ELSE)
    (h : Shadows k s t (f (s.next.kind == c)) (g (s.next.kind == c)) T) :
    Shadows k s t (check c >>= f) (check c >>= g) T := by
  refine twin fun ht => look (out_check c) (out_check c) ?_
  rwa [ht.next_eq hc]

theorem nextIsAssign {f g : Bool → Parser β} (hl : Level s t)
    (h : Shadows k s t (f (s.second.kind == .symbol .assign)) (g (s.second.kind == .symbol .assign))
      T) : Shadows k s t (nextIsAssign >>= f) (nextIsAssign >>= g) T := by
  refine look out_nextIsAssign out_nextIsAssign ?_
  rwa [hl.second_eq (by simp)]

theorem advance {f g : Token → Parser β} (hl : Level s t)
    (h : t.step.size ≤ t.size → Shadows k s.step t.step (f s.next) (g t.next) T) :
    Shadows k s t (advance >>= f) (advance >>= g) T := by
  intro _ a s' ha hk
  rw [out_bind_of_ok (out_advance s)] at ha
  obtain ⟨he, b, t', hb, het, ht', hle, hT⟩ := h (size_step_le t) hl.rest a s' ha hk
  exact ⟨he, b, t', (out_bind_of_ok (out_advance t)).trans hb, het, ht',
    hle.trans (size_step_le t), hT⟩

/-- Reads any token, where nothing is read behind the word `ELSE IF`. -/
theorem advanceOr {f g : Token → Parser β}
    (hs : s.next.kind = .keyword .ELSEIF → ∀ a s', out (f s.next) s.step ≠ (.ok a, s'))
    (h : Level s t → Shadows k s.step t.step (f s.next) (g t.next) T) :
    Shadows k s t (Parser.advance >>= f) (Parser.advance >>= g) T := by
  refine twin fun ht => ?_
  rcases ht.level_or_split with hl | hsplit
  · exact advance hl fun _ => h hl
  · refine vacuous fun a s' ha => hs hsplit.joint a s' ?_
    rwa [out_bind_of_ok (out_advance s)] at ha

/-- Reads a token of a kind that is known. -/
theorem read {f g : Token → Parser β}
    (hk : s.next.kind ≠ .keyword .ELSEIF ∧ s.next.kind ≠ .endOfInput)
    (h : Level s t → t.step.size < t.size → Shadows k s.step t.step (f s.next) (g t.next) T) :
    Shadows k s t (Parser.advance >>= f) (Parser.advance >>= g) T :=
  twin fun ht => advance (ht.level hk.1) fun _ => h (ht.level hk.1) (ht.size_step hk.2)

/-- Where the next tokens are alike, any kind is accepted by both parsers or by none. -/
theorem acceptAlike {c : Token.Kind} {f g : Bool → Parser β} (hl : Level s t)
    (hend : c ≠ .endOfInput)
    (ht : s.next.kind = c → t.step.size < t.size → Shadows k s.step t.step (f true) (g true) T)
    (hf : s.next.kind ≠ c → Shadows k s t (f false) (g false) T) :
    Shadows k s t (accept c >>= f) (accept c >>= g) T := by
  simp only [Parser.accept, bind_assoc]
  refine look (out_check c) (out_check c) ?_
  rw [hl.next.kind]
  by_cases h : s.next.kind = c
  · simp only [h, beq_self_eq_true, if_true, bind_assoc, pure_bind]
    exact twin fun htwin => advance hl fun _ => ht h (htwin.size_step (h ▸ hend))
  · simp only [beq_eq_false_iff_ne.mpr h, Bool.false_eq_true, if_false, pure_bind]
    exact hf h

theorem accept {c : Token.Kind} {f g : Bool → Parser β}
    (hc : c ≠ .keyword .ELSEIF ∧ c ≠ .keyword .ELSE) (hend : c ≠ .endOfInput)
    (ht : s.next.kind = c → Level s t → t.step.size < t.size →
      Shadows k s.step t.step (f true) (g true) T)
    (hf : s.next.kind ≠ c → Shadows k s t (f false) (g false) T) :
    Shadows k s t (accept c >>= f) (accept c >>= g) T := by
  refine twin fun htwin => ?_
  rcases htwin.level_or_split with hl | hs
  · exact acceptAlike hl hend (fun h hlt => ht h hl hlt) hf
  · have hne : s.next.kind ≠ c := hs.joint ▸ hc.1.symm
    simp only [Parser.accept, bind_assoc]
    refine check hc ?_
    simp only [beq_eq_false_iff_ne.mpr hne, Bool.false_eq_true, if_false, pure_bind]
    exact hf hne

theorem acceptOrFail {c : Token.Kind} {m : String} {f g : Unit → Parser β}
    (hc : c ≠ .keyword .ELSEIF ∧ c ≠ .keyword .ELSE) (hend : c ≠ .endOfInput)
    (h : s.next.kind = c → Level s t → t.step.size < t.size →
      Shadows k s.step t.step (f ()) (g ()) T) :
    Shadows k s t
      (Parser.accept c >>= fun b =>
        (unless b do MonadExcept.throw (unexpected m (← Parser.peek))) >>= f)
      (Parser.accept c >>= fun b =>
        (unless b do MonadExcept.throw (unexpected m (← Parser.peek))) >>= g) T := by
  refine accept hc hend (fun hn hl hlt => ?_) fun _ => ?_
  · simpa using h hn hl hlt
  · simp only [Bool.false_eq_true, if_false, bind_assoc]
    exact peek ((throw (R := fun _ _ _ _ => False)).bind fun _ _ _ _ _ h => h.elim)

theorem expectSymbol {c : Symbol} {m : String} {f g : Unit → Parser β}
    (h : s.next.kind = .symbol c → Level s t → t.step.size < t.size →
      Shadows k s.step t.step (f ()) (g ()) T) :
    Shadows k s t (expectSymbol c m >>= f) (expectSymbol c m >>= g) T := by
  simp only [Parser.expectSymbol, bind_assoc]
  exact acceptOrFail (by simp) (by simp) h

theorem expectSemicolon {f g : Unit → Parser β}
    (h : t.step.size < t.size → Shadows k s.step t.step (f ()) (g ()) T) :
    Shadows k s t (expectSemicolon >>= f) (expectSemicolon >>= g) T :=
  expectSymbol fun _ _ => h

theorem expectKeyword {c : Keyword} {m : String} {f g : Unit → Parser β}
    (hc : c ≠ .ELSEIF ∧ c ≠ .ELSE)
    (h : t.step.size < t.size → Shadows k s.step t.step (f ()) (g ()) T) :
    Shadows k s t (expectKeyword c m >>= f) (expectKeyword c m >>= g) T := by
  simp only [Parser.expectKeyword, bind_assoc]
  exact acceptOrFail (by simpa using hc) (by simp) fun _ _ => h

theorem needKeyword {c : Keyword} {m : String} {f : Unit → Parser β} {q : Parser β}
    (h : s.next.kind = .keyword c → Shadows k s t (Parser.expectKeyword c m >>= f) q T) :
    Shadows k s t (Parser.expectKeyword c m >>= f) q T := by
  by_cases hk : s.next.kind = .keyword c
  · exact h hk
  · refine vacuous fun a s' ha => ?_
    rw [Parser.expectKeyword, bind_assoc, out_bind_of_ok (out_accept_of_ne hk)] at ha
    cases ha

theorem refuse {c : Token.Kind} {p : Parser β} {g : Bool → Parser β} (hk : t.next.kind ≠ c)
    (h : Shadows k s t p (g false) T) : Shadows k s t p (Parser.accept c >>= g) T :=
  of_out rfl (out_bind_of_ok (out_accept_of_ne hk)) rfl rfl (Nat.le_refl _) id h

theorem expectName {m : String} {f g : String → Parser β}
    (h : ∀ name, s.next.name? = some name → Level s t → t.step.size < t.size →
      Shadows k s.step t.step (f name) (g name) T) :
    Shadows k s t (expectName m >>= f) (expectName m >>= g) T := by
  simp only [Parser.expectName, bind_assoc]
  refine peek ?_
  cases hn : s.next.name? with
  | none => exact (throw (R := fun _ _ _ _ => False)).bind fun _ _ _ _ _ h => h.elim
  | some name =>
    refine twin fun ht => ?_
    have hjoint : s.next.kind ≠ .keyword .ELSEIF := by
      intro hk
      simp [Token.name?, hk, Token.Kind.isSoft, Keyword.isSoft] at hn
    rw [(ht.level hjoint).next.name?, hn]
    simp only [bind_assoc, pure_bind]
    exact read ⟨hjoint, (isInner_of_name hn).2⟩ (h name hn)

theorem modifyArrays (u : List String → List String) {f g : Unit → Parser β}
    (h : Shadows k { s with arrays := u s.arrays } { t with arrays := u t.arrays } (f ()) (g ())
      T) : Shadows k s t (modify (fun s => { s with arrays := u s.arrays }) >>= f)
      (modify (fun s => { s with arrays := u s.arrays }) >>= g) T :=
  fun ht => h ⟨ht.ahead, ht.eof, ht.isEnd, by rw [ht.arrays]⟩

theorem recover (hp : Grows p) (h : Shadows false s t p q R) :
    Shadows false s t (recover p) (recover q) fun r r' s' t' =>
      ∃ a b, r = some a ∧ r' = some b ∧ R a b s' t' := by
  intro ht r s' hr hk
  have hclean := hk.resolve_left (by simp)
  obtain ⟨⟨new, hnew⟩, -⟩ := hp s ht.isEnd
  generalize hout : out p s = x at hnew
  obtain ⟨result, s₁⟩ := x
  cases result with
  | error e =>
    rw [out_recover_of_error hout] at hr
    cases hr
    rw [State.errors_resync, hnew, List.append_assoc] at hclean
    cases (List.append_eq_nil_iff.mp (List.append_right_eq_self.mp hclean)).2
  | ok a =>
    rw [out_recover_of_ok hout] at hr
    cases hr
    obtain ⟨-, b, t', hq, het, ht', hle, hR⟩ := h ht a s' hout hk
    exact ⟨hclean, some b, t', out_recover_of_ok hq, het, ht', hle, a, b, rfl, rfl, hR⟩

end Shadows

/-! ### Loops -/

/-- What is left of a loop behind a pass. -/
def Pass.rest (pass : α → Parser (Pass α β)) (n : Nat) : Pass α β → Parser β
  | .again a => repeatUpTo pass n a
  | .done b => return b

theorem repeatUpTo_succ (pass : α → Parser (Pass α β)) (n : Nat) (a : α) :
    repeatUpTo pass (n + 1) a = pass a >>= Pass.rest pass n := rfl

/-- Two passes of a loop lead to the same: both are the last one, or none of them is, and then a
token was read. -/
def Pass.Both (t : State) (I : α → α → State → State → Prop) (R : β → β → State → State → Prop) :
    Pass α β → Pass α β → State → State → Prop
  | .again a, .again b, s', t' => I a b s' t' ∧ t'.size < t.size
  | .done a, .done b, s', t' => R a b s' t'
  | _, _, _, _ => False

namespace Shadows

variable {k : Bool} {pass pass' : α → Parser (Pass α β)} {I : α → α → State → State → Prop}
  {R : β → β → State → State → Prop}

theorem rest {u : State} {n m : Nat} {r r' : Pass α β} (hr : Pass.Both u I R r r' s t)
    (h : ∀ a b, I a b s t → t.size < u.size →
      Shadows k s t (Parser.repeatUpTo pass n a) (Parser.repeatUpTo pass' m b) R) :
    Shadows k s t (Pass.rest pass n r) (Pass.rest pass' m r') R := by
  cases r with
  | again a =>
    cases r' with
    | again b => exact h a b hr.1 hr.2
    | done b => exact hr.elim
  | done a =>
    cases r' with
    | again b => exact hr.elim
    | done b => exact pure hr

theorem repeatUpTo (hk : k = true ∨ ∀ a, Grows (pass a)) {n m : Nat} {a b : α} (hm : t.size < m)
    (hI : I a b s t)
    (h : ∀ a b s' t', t'.size ≤ t.size → I a b s' t' →
      Shadows k s' t' (pass a) (pass' b) (Pass.Both t' I R)) :
    Shadows k s t (repeatUpTo pass n a) (repeatUpTo pass' m b) R := by
  induction n generalizing m a b s t with
  | zero => exact throw
  | succ n ih =>
    obtain ⟨m, rfl⟩ : ∃ j, m = j + 1 := ⟨m - 1, by omega⟩
    have hfirst := h a b s t (Nat.le_refl _) hI
    have hrest (r r' : Pass α β) (s₁ t₁ : State) (hr : Pass.Both t I R r r' s₁ t₁) :
        Shadows k s₁ t₁ (Pass.rest pass n r) (Pass.rest pass' m r') R :=
      .rest hr fun a b hI₁ hlt => ih (by omega) hI₁ fun a b s' t' hle => h a b s' t' (by omega)
    rw [repeatUpTo_succ, repeatUpTo_succ]
    cases k with
    | true => exact hfirst.bind fun r r' s₁ t₁ _ hr => hrest r r' s₁ t₁ hr
    | false =>
      have hgrows := hk.resolve_left (by simp)
      refine hfirst.bindLoud (hgrows a) (fun r => ?_) fun r r' s₁ t₁ _ hr => hrest r r' s₁ t₁ hr
      cases r with
      | again a => exact composes_grows.repeatUpTo hgrows n a
      | done b => exact .pure

theorem repeated (hk : k = true ∨ ∀ a, Grows (pass a)) {a b : α} (hI : I a b s t)
    (h : ∀ a b s' t', t'.size ≤ t.size → I a b s' t' →
      Shadows k s' t' (pass a) (pass' b) (Pass.Both t' I R)) :
    Shadows k s t (repeated a pass) (repeated b pass') R := by
  unfold Parser.repeated
  exact get (repeatUpTo hk (Nat.lt_succ_self _) hI h)

theorem loop {a : α} (h : ∀ a s' t', t'.size ≤ t.size →
      Shadows true s' t' (pass a) (pass' a) (Pass.Both t' Agree Agree)) :
    Shadows true s t (Parser.repeated a pass) (Parser.repeated a pass') Agree := by
  refine repeated (I := Agree) (.inl rfl) rfl ?_
  rintro _ a s' t' hle rfl
  exact h a s' t' hle

theorem list {item item' : α → Parser α} {a : α} (h : ∀ a s' t', t'.size ≤ t.size →
      Shadows true s' t' (item a) (item' a) (AgreeBehind t')) :
    Shadows true s t (Parser.repeated a (listPass item)) (Parser.repeated a (listPass item'))
      Agree := by
  refine loop fun a s' t' hle => check (by simp) ?_
  split
  · exact pure rfl
  · refine (h a s' t' hle).bind fun a₁ b₁ s₁ t₁ _ hab => pure ⟨hab.1, ?_⟩
    exact hab.2

end Shadows

end Parser

end StepLang
