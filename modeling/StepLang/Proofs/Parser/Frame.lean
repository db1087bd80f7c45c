import StepLang.Parser.Cursor

/-! # Runs of a parser on longer input

A parser looks at the tokens ahead of it and at no others. If it stops before the last of them, its
run is the same with more tokens behind, whichever they are, and the bounds on its loops do not show
as long as they exceed the count of tokens ahead. It does not look at the errors reported before,
nor at the arrays declared before except those that stand before an opening parenthesis.
-/

namespace StepLang.Parser

variable {α β γ : Type}

/-! ### Runs -/

/-- What a parser does from a state: its result and the state that it leaves. -/
def out (p : Parser α) (s : State) : Except Error α × State := p.run.run s

@[simp] theorem out_pure (a : α) (s : State) : out (pure a) s = (.ok a, s) := rfl

@[simp] theorem out_throw (e : Error) (s : State) :
    out (throw e : Parser α) s = (.error e, s) := rfl

@[simp] theorem out_get (s : State) : out get s = (.ok s, s) := rfl

@[simp] theorem out_modify (g : State → State) (s : State) : out (modify g) s = (.ok (), g s) := rfl

theorem out_bind (p : Parser α) (f : α → Parser β) (s : State) :
    out (p >>= f) s =
      match out p s with
      | (.ok a, s') => out (f a) s'
      | (.error e, s') => (.error e, s') := by
  simp only [out, ExceptT.run_bind, StateT.run_bind]
  show (match StateT.run (ExceptT.run p) s with | (a, s) => _) = _
  obtain ⟨r, s'⟩ := StateT.run (ExceptT.run p) s
  cases r <;> rfl

theorem out_bind_of_ok {p : Parser α} {f : α → Parser β} {s s' : State} {a : α}
    (h : out p s = (.ok a, s')) : out (p >>= f) s = out (f a) s' := by
  rw [out_bind, h]

theorem out_bind_of_error {p : Parser α} {f : α → Parser β} {s s' : State} {e : Error}
    (h : out p s = (.error e, s')) : out (p >>= f) s = (.error e, s') := by
  rw [out_bind, h]

namespace State

/-- The token to be read next, which is the end of input behind the last one. -/
def next (s : State) : Token := s.ahead.headD s.eof

def second (s : State) : Token := s.ahead.tail.headD s.eof

def step (s : State) : State := { s with ahead := s.ahead.tail, last := s.ahead.headD s.last }

def size (s : State) : Nat := s.ahead.length

/-- The state after the next semicolon. -/
def resync (s : State) : State :=
  match s.ahead.drop (s.ahead.takeWhile (·.kind != .symbol .semicolon)).length with
  | t :: rest => { s with ahead := rest, last := t }
  | [] => { s with ahead := [], last := s.ahead.getLastD s.last }

end State

@[simp] theorem out_peek (s : State) : out peek s = (.ok s.next, s) := rfl

@[simp] theorem out_peekNext (s : State) : out peekNext s = (.ok s.second, s) := rfl

@[simp] theorem out_previous (s : State) : out previous s = (.ok s.last, s) := rfl

@[simp] theorem out_atEnd (s : State) : out atEnd s = (.ok s.ahead.isEmpty, s) := rfl

@[simp] theorem out_check (k : Token.Kind) (s : State) :
    out (check k) s = (.ok (s.next.kind == k), s) := rfl

@[simp] theorem out_advance (s : State) : out advance s = (.ok s.next, s.step) := by
  obtain ⟨ahead, eof, last, errors, arrays⟩ := s
  cases ahead <;> rfl

theorem out_accept (k : Token.Kind) (s : State) :
    out (accept k) s = if s.next.kind == k then (.ok true, s.step) else (.ok false, s) := by
  unfold accept
  rw [out_bind_of_ok (out_check k s)]
  split
  · rw [out_bind_of_ok (out_advance s)]
    rfl
  · rfl

theorem out_attempt (p : Parser α) (s : State) :
    out (attempt p) s = (.ok (out p s).1, (out p s).2) := rfl

theorem out_recover_of_ok {p : Parser α} {s s' : State} {a : α} (h : out p s = (.ok a, s')) :
    out (recover p) s = (.ok (some a), s') := by
  unfold recover
  rw [out_bind_of_ok (out_attempt p s), h]
  rfl

theorem out_recover_of_error {p : Parser α} {s s' : State} {e : Error}
    (h : out p s = (.error e, s')) : out (recover p) s =
      (.ok none, State.resync { s' with errors := s'.errors ++ [e] }) := by
  unfold recover
  rw [out_bind_of_ok (out_attempt p s), h]
  rfl

namespace State

theorem resync_of_append {s : State} {skipped rest : List Token} {t : Token}
    (h : s.ahead = skipped ++ t :: rest) (hs : ∀ u ∈ skipped, u.kind ≠ .symbol .semicolon)
    (ht : t.kind = .symbol .semicolon) : s.resync = { s with ahead := rest, last := t } := by
  have htake : s.ahead.takeWhile (·.kind != .symbol .semicolon) = skipped := by
    rw [h, List.takeWhile_append_of_pos (by simpa using hs)]
    simp [ht]
  unfold resync
  rw [htake, h, List.drop_left]

theorem resync_of_none {s : State} (h : ∀ u ∈ s.ahead, u.kind ≠ .symbol .semicolon) :
    s.resync = { s with ahead := [], last := s.ahead.getLastD s.last } := by
  have htake : s.ahead.takeWhile (·.kind != .symbol .semicolon) = s.ahead := by
    have := @List.takeWhile_append_of_pos _ (·.kind != .symbol .semicolon) s.ahead [] (by simpa)
    simpa using this
  unfold resync
  rw [htake, List.drop_length]

theorem semicolon_cases (ts : List Token) :
    (∃ skipped t rest, ts = skipped ++ t :: rest ∧ t.kind = .symbol .semicolon ∧
      ∀ u ∈ skipped, u.kind ≠ .symbol .semicolon) ∨
    ∀ u ∈ ts, u.kind ≠ .symbol .semicolon := by
  induction ts with
  | nil => exact .inr fun u hu => nomatch hu
  | cons t ts ih =>
    by_cases ht : t.kind = .symbol .semicolon
    · exact .inl ⟨[], t, ts, rfl, ht, fun u hu => nomatch hu⟩
    · rcases ih with ⟨skipped, u, rest, rfl, hu, hs⟩ | h
      · exact .inl ⟨t :: skipped, u, rest, rfl, hu, List.forall_mem_cons.mpr ⟨ht, hs⟩⟩
      · exact .inr (List.forall_mem_cons.mpr ⟨ht, h⟩)

theorem resync_suffix (s : State) : s.resync.ahead <:+ s.ahead := by
  rcases semicolon_cases s.ahead with ⟨skipped, t, rest, h, ht, hs⟩ | h
  · rw [resync_of_append h hs ht, h]
    exact ((List.suffix_cons t rest).trans (List.suffix_append skipped (t :: rest)))
  · rw [resync_of_none h]
    exact List.nil_suffix

theorem eof_resync (s : State) : s.resync.eof = s.eof := by
  unfold resync
  split <;> rfl

theorem errors_resync (s : State) : s.resync.errors = s.errors := by
  unfold resync
  split <;> rfl

theorem arrays_resync (s : State) : s.resync.arrays = s.arrays := by
  unfold resync
  split <;> rfl

theorem size_resync_lt {s : State} {n : Nat} (hn : s.size ≤ n) (h : 0 < n) : s.resync.size < n := by
  rcases semicolon_cases s.ahead with ⟨skipped, t, rest, hs, ht, hskip⟩ | hnone
  · rw [resync_of_append hs hskip ht]
    simp only [size, hs, List.length_append, List.length_cons] at hn ⊢
    omega
  · rw [resync_of_none hnone]
    exact h

end State

/-! ### Frames -/

/-- The names that stand before an opening parenthesis, in upper case. -/
def callNames : List Token → List String
  | t :: u :: rest =>
    if u.kind = .symbol .leftParen then (t.name?.map Text.upper).toList ++ callNames (u :: rest)
    else callNames (u :: rest)
  | _ => []

theorem callNames_subset_cons (t : Token) (ts : List Token) :
    callNames ts ⊆ callNames (t :: ts) := by
  cases ts with
  | nil => exact fun _ h => nomatch h
  | cons u rest =>
    rw [callNames.eq_def (t :: u :: rest)]
    dsimp only
    split
    · exact List.subset_append_right _ _
    · exact List.Subset.refl _

theorem callNames_subset_of_suffix {ts us : List Token} (h : ts <:+ us) :
    callNames ts ⊆ callNames us := by
  obtain ⟨pre, rfl⟩ := h
  induction pre with
  | nil => exact List.Subset.refl _
  | cons t pre ih => exact List.Subset.trans ih (callNames_subset_cons t (pre ++ ts))

/-- The keyword begins or ends a step or a group, which hold statements of their own. -/
def isCompound : Token.Kind → Bool
  | .keyword k => [.DO, .DATA, .PROC, .RUN, .QUIT].contains k
  | _ => false

/-- A statement that begins with such a keyword can be found malformed behind its semicolon. -/
def checksLate : Token.Kind → Bool
  | .keyword k => [.SET, .MERGE, .BY, .ARRAY, .DATALINES, .OPTIONS, .LIBNAME].contains k
  | _ => false

/-- The tokens of one statement through its semicolon, or the rest of them. -/
structure Tidy (ts : List Token) : Prop where
  simple : ∀ t ∈ ts, isCompound t.kind = false
  ends : ∀ t rest, t :: rest <:+ ts → (t.kind = .symbol .semicolon ↔ rest = [])

theorem Tidy.of_suffix {ts us : List Token} (h : Tidy us) (hs : ts <:+ us) : Tidy ts where
  simple t ht := h.simple t (hs.subset ht)
  ends t rest ht := h.ends t rest (ht.trans hs)

def NumbersPresent (ts : List Token) : Prop :=
  ∀ t ∈ ts, ∀ x, t.kind = .number x → x.isNaN = false

/-- What surrounds a run that is compared with a longer one: the tokens behind those that the
shorter run has, or none if both come to the same end, the errors reported before, the names that
both take alike for arrays or not, and the count of tokens from which on both have read the same
last. In a tidy frame the tokens are those of one statement, in a strict frame also such that it can
fail only before its semicolon, and with `present` no token is the missing number. -/
structure Frame where
  extra : Option (List Token)
  errors : List Error
  watched : String → Prop
  bound : Nat
  tidy : Bool
  strict : Bool
  present : Bool

namespace Frame

variable (c : Frame)

/-- The count of tokens that a failure leaves. -/
def floor : Nat := c.strict.toNat

structure Ready (s : State) : Prop where
  eof : s.eof.kind = .endOfInput
  size : s.size ≤ c.bound
  calls : ∀ name ∈ callNames s.ahead, c.watched name
  tidy : c.tidy = true → Tidy s.ahead
  strict : c.strict = true → c.tidy = true ∧ ∀ t ∈ s.ahead, checksLate t.kind = false
  present : c.present = true → NumbersPresent s.ahead

/-- The second state is the first with more tokens behind. -/
structure Extends (s t : State) : Prop where
  ahead : t.ahead = s.ahead ++ c.extra.getD []
  eof : c.extra = none → t.eof = s.eof
  errors : t.errors = c.errors ++ s.errors
  last : s.size < c.bound → t.last = s.last
  arrays : ∀ name, c.watched name → t.arrays.contains name = s.arrays.contains name

/-- Nothing behind the tokens ahead was looked at: two of them are left, or the semicolon. -/
def Covered (s : State) : Prop :=
  ∃ t rest, s.ahead = t :: rest ∧ (t.kind ≠ .symbol .semicolon → rest ≠ [])

def Enough (s : State) : Prop := c.extra = none ∨ Covered s

end Frame

variable {c : Frame} {s s' t : State}

theorem Frame.Enough.of_suffix (h : c.Enough s') (hs : s'.ahead <:+ s.ahead) : c.Enough s := by
  refine h.imp_right ?_
  rintro ⟨u, rest, hu, hne⟩
  rw [hu] at hs
  obtain ⟨pre, hpre⟩ := hs
  cases pre with
  | nil => exact ⟨u, rest, hpre.symm, hne⟩
  | cons v pre => exact ⟨v, pre ++ u :: rest, hpre.symm, fun _ => by simp⟩

theorem Frame.Ready.of_suffix (h : c.Ready s) (hs : s'.ahead <:+ s.ahead)
    (he : s'.eof = s.eof) : c.Ready s' where
  eof := he ▸ h.eof
  size := Nat.le_trans hs.length_le h.size
  calls name hn := h.calls name (callNames_subset_of_suffix hs hn)
  tidy hc := (h.tidy hc).of_suffix hs
  strict hc := ⟨(h.strict hc).1, fun t ht => (h.strict hc).2 t (hs.subset ht)⟩
  present hc t ht := h.present hc t (hs.subset ht)

theorem Frame.Extends.next (h : c.Extends s t) (he : c.Enough s) : t.next = s.next := by
  unfold State.next
  rcases he with hx | ⟨u, rest, hu, -⟩
  · rw [h.ahead, h.eof hx, hx, Option.getD_none, List.append_nil]
  · rw [h.ahead, hu]
    rfl

theorem Frame.Extends.second (h : c.Extends s t) (he : c.Enough s)
    (hn : c.extra = none ∨ s.next.kind ≠ .symbol .semicolon) : t.second = s.second := by
  unfold State.second
  by_cases hx : c.extra = none
  · rw [h.ahead, h.eof hx, hx, Option.getD_none, List.append_nil]
  · obtain ⟨u, rest, hu, hrest⟩ := he.resolve_left hx
    have hne : rest ≠ [] := by
      refine hrest ?_
      have hn := hn.resolve_left hx
      rwa [State.next, hu] at hn
    obtain ⟨v, rest, rfl⟩ := List.exists_cons_of_ne_nil hne
    rw [h.ahead, hu]
    rfl

theorem Frame.Extends.step (h : c.Extends s t) (he : c.Enough s.step) :
    c.Extends s.step t.step := by
  obtain ⟨ahead, eof, last, errors, arrays⟩ := s
  obtain ⟨ahead', eof', last', errors', arrays'⟩ := t
  obtain ⟨hahead, heof, herrors, hlast, harrays⟩ := h
  simp only at hahead
  subst hahead
  cases ahead with
  | nil =>
    -- nothing is left to read, so nothing stands behind
    have hx : c.extra = none := by
      rcases he with hx | ⟨u, rest, hu, -⟩
      · exact hx
      · cases hu
    refine ⟨?_, heof, herrors, ?_, harrays⟩
    · simp [State.step, hx]
    · simpa [State.step, hx] using hlast
  | cons u rest => exact ⟨rfl, heof, herrors, fun _ => rfl, harrays⟩

theorem Frame.Extends.resync (h : c.Extends s t) (he : c.Enough s.resync) :
    c.Extends s.resync t.resync := by
  rcases State.semicolon_cases s.ahead with ⟨skipped, u, rest, hs, hu, hskip⟩ | hnone
  · have ht : t.ahead = skipped ++ u :: (rest ++ c.extra.getD []) := by simp [h.ahead, hs]
    rw [State.resync_of_append hs hskip hu, State.resync_of_append ht hskip hu]
    exact ⟨rfl, h.eof, h.errors, fun _ => rfl, h.arrays⟩
  · rw [State.resync_of_none hnone] at he ⊢
    have hx : c.extra = none := by
      rcases he with hx | ⟨u, rest, hu, -⟩
      · exact hx
      · cases hu
    have ht : t.ahead = s.ahead := by rw [h.ahead, hx, Option.getD_none, List.append_nil]
    rw [State.resync_of_none (ht ▸ hnone), ht]
    refine ⟨by rw [hx]; rfl, h.eof, h.errors, fun hlt => ?_, h.arrays⟩
    cases hs : s.ahead with
    | nil => exact h.last (by simpa [State.size, hs] using hlt)
    | cons u rest => rfl

theorem step_suffix (s : State) : s.step.ahead <:+ s.ahead := List.tail_suffix _

theorem size_step_le (s : State) : s.step.size ≤ s.size := (step_suffix s).length_le

theorem ne_nil_of_next (hr : c.Ready s) (hn : s.next.kind ≠ .endOfInput) : s.ahead ≠ [] := by
  intro h
  refine hn ?_
  rw [State.next, h]
  exact hr.eof

theorem next_mem (hr : c.Ready s) (hn : s.next.kind ≠ .endOfInput) : s.next ∈ s.ahead := by
  obtain ⟨u, rest, hu⟩ := List.exists_cons_of_ne_nil (ne_nil_of_next hr hn)
  simp [State.next, hu]

theorem size_step_of_pos (h : 0 < s.size) : s.step.size < s.size := by
  simp only [State.step, State.size, List.length_tail] at h ⊢
  omega

theorem size_step (hr : c.Ready s) (hn : s.next.kind ≠ .endOfInput) : s.step.size < s.size :=
  size_step_of_pos (List.length_pos_iff.mpr (ne_nil_of_next hr hn))

/-- A kind of token that neither ends a statement nor the input. -/
def IsInner (k : Token.Kind) : Prop := k ≠ .symbol .semicolon ∧ k ≠ .endOfInput

theorem isInner_of_name {t : Token} {name : String} (h : t.name? = some name) :
    IsInner t.kind := by
  constructor <;> intro hk <;> simp [Token.name?, hk, Token.Kind.isSoft] at h

/-- In a strict frame the semicolon is read last. -/
theorem floor_le_step (hr : c.Ready s) (hn : s.next.kind ≠ .symbol .semicolon)
    (hf : c.floor ≤ s.size) : c.floor ≤ s.step.size := by
  cases hc : c.strict with
  | false => simp [Frame.floor, hc]
  | true =>
    simp only [Frame.floor, hc, Bool.toNat_true, State.size] at hf ⊢
    cases hs : s.ahead with
    | nil => simp [hs] at hf
    | cons u rest =>
      rw [State.next, hs] at hn
      have hends := (hr.tidy (hr.strict hc).1).ends u rest (hs ▸ List.suffix_refl _)
      have hne : rest ≠ [] := fun h => hn (hends.mpr h)
      exact List.length_pos_iff.mpr (by simpa [State.step, hs])

theorem arrays_trans {s₁ s₂ : State} (h : s₁.arrays = s.arrays ∨ s₁.ahead = [])
    (h' : s₂.arrays = s₁.arrays ∨ s₂.ahead = []) (hs : s₂.ahead <:+ s₁.ahead) :
    s₂.arrays = s.arrays ∨ s₂.ahead = [] := by
  rcases h with h | h
  · exact h'.imp_left fun h' => h'.trans h
  · rw [h] at hs
    exact .inr (List.suffix_nil.mp hs)

/-- What a run has done: it read from the front, its result is as stated, and the other parser has
the same result with more tokens behind. -/
structure Ran (c : Frame) (s s' : State) (r : Except Error α) (q : Parser α)
    (Q : α → State → Prop) : Prop where
  suffix : s'.ahead <:+ s.ahead
  eof : s'.eof = s.eof
  arrays : c.tidy = true → s'.arrays = s.arrays ∨ s'.ahead = []
  ok : ∀ a, r = .ok a → Q a s'
  error : ∀ e, r = .error e → c.floor ≤ s'.size
  longer : ∀ t, c.Extends s t → c.Enough s' → ∃ t', out q t = (r, t') ∧ c.Extends s' t'

/-- A run of `p` ends as `Q` says, or fails, and a run of `q` with more tokens behind is the same.
The two differ in the bounds of their loops. -/
def Framed (c : Frame) (s : State) (p q : Parser α) (Q : α → State → Prop) : Prop :=
  c.Ready s → Ran c s (out p s).2 (out p s).1 q Q

namespace Framed

variable {p q : Parser α} {f g : α → Parser β} {Q Q' : α → State → Prop} {R : β → State → Prop}

theorem pure {a : α} (h : Q a s) : Framed c s (pure a) (pure a) Q := by
  intro _
  refine ⟨List.suffix_refl _, rfl, fun _ => .inl rfl, ?_, (fun e he => nomatch he),
    fun t ht _ => ⟨t, rfl, ht⟩⟩
  rintro _ ⟨⟩
  exact h

theorem throw {e : Error} (h : c.floor ≤ s.size) :
    Framed c s (throw e : Parser α) (throw e) Q := by
  intro _
  exact ⟨List.suffix_refl _, rfl, fun _ => .inl rfl, (fun a ha => nomatch ha), fun _ _ => h,
    fun t ht _ => ⟨t, rfl, ht⟩⟩

theorem mono (h : Framed c s p q Q) (hQ : ∀ a s', Q a s' → Q' a s') : Framed c s p q Q' := by
  intro hr
  obtain ⟨hs, he, ha, hok, herr, hl⟩ := h hr
  exact ⟨hs, he, ha, fun a ha => hQ a _ (hok a ha), herr, hl⟩

theorem ready (h : c.Ready s → Framed c s p q Q) : Framed c s p q Q :=
  fun hr => h hr hr

theorem bind (hp : Framed c s p q Q) (hf : ∀ a s₁, Q a s₁ → Framed c s₁ (f a) (g a) R) :
    Framed c s (p >>= f) (q >>= g) R := by
  intro hr
  obtain ⟨hs, he, ha, hok, herr, hl⟩ := hp hr
  rw [out_bind]
  generalize out p s = x at hs he ha hok herr hl
  obtain ⟨r, s₁⟩ := x
  cases r with
  | error e =>
    refine ⟨hs, he, ha, (fun a ha => nomatch ha), fun _ _ => herr e rfl, fun t ht hn => ?_⟩
    obtain ⟨t', hq, ht'⟩ := hl t ht hn
    exact ⟨t', out_bind_of_error hq, ht'⟩
  | ok a =>
    obtain ⟨hs', he', ha', hok', herr', hl'⟩ := hf a s₁ (hok a rfl) (hr.of_suffix hs he)
    refine ⟨hs'.trans hs, he'.trans he, fun hc => arrays_trans (ha hc) (ha' hc) hs', hok', herr',
      fun t ht hn => ?_⟩
    obtain ⟨t₁, hq, ht₁⟩ := hl t ht (hn.of_suffix hs')
    obtain ⟨t', hg, ht'⟩ := hl' t₁ ht₁ hn
    exact ⟨t', (out_bind_of_ok hq).trans hg, ht'⟩

theorem look {p : Parser γ} {l : State → γ} {f g : γ → Parser β}
    (hp : ∀ s, out p s = (.ok (l s), s))
    (hl : ∀ t, c.Ready s → c.Extends s t → c.Enough s → l t = l s)
    (hf : Framed c s (f (l s)) (g (l s)) R) : Framed c s (p >>= f) (p >>= g) R := by
  intro hr
  obtain ⟨hs, he, ha, hok, herr, hlong⟩ := hf hr
  rw [out_bind_of_ok (hp s)]
  refine ⟨hs, he, ha, hok, herr, fun t ht hn => ?_⟩
  rw [out_bind_of_ok (hp t), hl t hr ht (hn.of_suffix hs)]
  exact hlong t ht hn

theorem peek {f g : Token → Parser β} (h : Framed c s (f s.next) (g s.next) R) :
    Framed c s (peek >>= f) (peek >>= g) R :=
  look out_peek (fun _ _ ht hn => ht.next hn) h

theorem peekNext {f g : Token → Parser β} (hn : c.extra = none ∨ s.next.kind ≠ .symbol .semicolon)
    (h : Framed c s (f s.second) (g s.second) R) :
    Framed c s (peekNext >>= f) (peekNext >>= g) R :=
  look out_peekNext (fun _ _ ht he => ht.second he hn) h

theorem nextIsAssign {f g : Bool → Parser β}
    (hn : c.extra = none ∨ s.next.kind ≠ .symbol .semicolon)
    (h : Framed c s (f (s.second.kind == .symbol .assign)) (g (s.second.kind == .symbol .assign))
      R) : Framed c s (nextIsAssign >>= f) (nextIsAssign >>= g) R := by
  simp only [Parser.nextIsAssign, bind_assoc, pure_bind]
  exact peekNext hn h

theorem check {k : Token.Kind} {f g : Bool → Parser β}
    (h : Framed c s (f (s.next.kind == k)) (g (s.next.kind == k)) R) :
    Framed c s (check k >>= f) (check k >>= g) R :=
  look (out_check k) (fun _ _ ht hn => by rw [ht.next hn]) h

theorem advance {f g : Token → Parser β} (h : Framed c s.step (f s.next) (g s.next) R) :
    Framed c s (advance >>= f) (advance >>= g) R := by
  intro hr
  obtain ⟨hs, he, ha, hok, herr, hl⟩ := h (hr.of_suffix (step_suffix s) rfl)
  rw [out_bind_of_ok (out_advance s)]
  refine ⟨hs.trans (step_suffix s), he, ha, hok, herr, fun t ht hn => ?_⟩
  have hstep := hn.of_suffix hs
  rw [out_bind_of_ok (out_advance t), ht.next (hstep.of_suffix (step_suffix s))]
  exact hl t.step (ht.step hstep) hn

/-- Reads a token inside a statement. -/
theorem read {f g : Token → Parser β} (hk : IsInner s.next.kind) (hs : c.floor ≤ s.size)
    (h : c.floor ≤ s.step.size → s.step.size < s.size → Framed c s.step (f s.next) (g s.next) R) :
    Framed c s (Parser.advance >>= f) (Parser.advance >>= g) R :=
  ready fun hr => advance (h (floor_le_step hr hk.1 hs) (size_step hr hk.2))

theorem accept_any {k : Token.Kind} {f g : Bool → Parser β}
    (ht : s.next.kind = k → Framed c s.step (f true) (g true) R)
    (hf : s.next.kind ≠ k → Framed c s (f false) (g false) R) :
    Framed c s (accept k >>= f) (accept k >>= g) R := by
  simp only [Parser.accept, bind_assoc]
  refine check ?_
  by_cases h : s.next.kind = k
  · simpa only [h, beq_self_eq_true, if_true, bind_assoc, pure_bind] using advance (ht h)
  · simpa only [beq_eq_false_iff_ne.mpr h, Bool.false_eq_true, if_false, pure_bind] using hf h

theorem accept {k : Token.Kind} {f g : Bool → Parser β} (hk : IsInner k) (hs : c.floor ≤ s.size)
    (ht : s.next.kind = k → c.floor ≤ s.step.size → s.step.size < s.size →
      Framed c s.step (f true) (g true) R)
    (hf : s.next.kind ≠ k → Framed c s (f false) (g false) R) :
    Framed c s (Parser.accept k >>= f) (Parser.accept k >>= g) R := by
  refine ready fun hr => accept_any (fun h => ?_) hf
  rw [← h] at hk
  exact ht h (floor_le_step hr hk.1 hs) (size_step hr hk.2)

theorem acceptOrNot {k : Token.Kind} (hk : IsInner k) (hs : c.floor ≤ s.size) :
    Framed c s (Parser.accept k) (Parser.accept k) fun _ s' =>
      c.floor ≤ s'.size ∧ s'.size ≤ s.size := by
  have h := accept (f := Pure.pure) (g := Pure.pure) (R := fun _ s' => c.floor ≤ s'.size ∧
    s'.size ≤ s.size) hk hs (fun _ hf hlt => pure ⟨hf, Nat.le_of_lt hlt⟩)
    fun _ => pure ⟨hs, Nat.le_refl _⟩
  rwa [bind_pure] at h

theorem acceptSemicolon {f g : Bool → Parser β}
    (ht : s.step.size < s.size → Framed c s.step (f true) (g true) R)
    (hf : s.next.kind ≠ .symbol .semicolon → Framed c s (f false) (g false) R) :
    Framed c s (Parser.accept (.symbol .semicolon) >>= f)
      (Parser.accept (.symbol .semicolon) >>= g) R :=
  ready fun hr => accept_any (fun h => ht (size_step hr (by simp [h]))) hf

theorem acceptOrFail {k : Token.Kind} {m : String} {f g : Unit → Parser β}
    (hs : c.floor ≤ s.size) (h : s.next.kind = k → Framed c s.step (f ()) (g ()) R) :
    Framed c s
      (Parser.accept k >>= fun b =>
        (unless b do MonadExcept.throw (unexpected m (← Parser.peek))) >>= f)
      (Parser.accept k >>= fun b =>
        (unless b do MonadExcept.throw (unexpected m (← Parser.peek))) >>= g) R := by
  refine accept_any (fun hk => ?_) (fun hk => ?_)
  · simpa using h hk
  · simp only [Bool.false_eq_true, if_false, bind_assoc]
    exact peek ((throw hs).bind fun _ _ h => False.elim h)

theorem expectSymbol {k : Symbol} {m : String} {f g : Unit → Parser β} (hk : k ≠ .semicolon)
    (hs : c.floor ≤ s.size)
    (h : c.floor ≤ s.step.size → s.step.size < s.size → Framed c s.step (f ()) (g ()) R) :
    Framed c s (expectSymbol k m >>= f) (expectSymbol k m >>= g) R := by
  simp only [Parser.expectSymbol, bind_assoc]
  refine ready fun hr => acceptOrFail hs fun hn => ?_
  exact h (floor_le_step hr (by simpa [hn]) hs) (size_step hr (by simp [hn]))

theorem expectSemicolon {f g : Unit → Parser β} (hs : c.floor ≤ s.size)
    (h : s.step.size < s.size → Framed c s.step (f ()) (g ()) R) :
    Framed c s (expectSemicolon >>= f) (expectSemicolon >>= g) R := by
  simp only [Parser.expectSemicolon, Parser.expectSymbol, bind_assoc]
  exact ready fun hr => acceptOrFail hs fun hn => h (size_step hr (by simp [hn]))

/-- In a tidy frame nothing is left behind the semicolon. -/
theorem expectEnd {f g : Unit → Parser β} (hs : c.floor ≤ s.size)
    (h : s.step.size < s.size → (c.tidy = true → s.step.ahead = []) →
      Framed c s.step (f ()) (g ()) R) :
    Framed c s (Parser.expectSemicolon >>= f) (Parser.expectSemicolon >>= g) R := by
  simp only [Parser.expectSemicolon, Parser.expectSymbol, bind_assoc]
  refine ready fun hr => acceptOrFail hs fun hn => ?_
  refine h (size_step hr (by simp [hn])) fun hc => ?_
  have hends := (hr.tidy hc).ends
  cases ha : s.ahead with
  | nil => simp [State.step, ha]
  | cons u rest =>
    rw [State.next, ha] at hn
    simpa [State.step, ha] using (hends u rest (ha ▸ List.suffix_refl _)).mp hn

theorem expectKeyword {k : Keyword} {m : String} {f g : Unit → Parser β} (hs : c.floor ≤ s.size)
    (h : c.floor ≤ s.step.size → s.step.size < s.size → Framed c s.step (f ()) (g ()) R) :
    Framed c s (expectKeyword k m >>= f) (expectKeyword k m >>= g) R := by
  simp only [Parser.expectKeyword, bind_assoc]
  refine ready fun hr => acceptOrFail hs fun hn => ?_
  exact h (floor_le_step hr (by simp [hn]) hs) (size_step hr (by simp [hn]))

theorem expectName {m : String} {f g : String → Parser β} (hs : c.floor ≤ s.size)
    (h : ∀ name, s.next.name? = some name → c.floor ≤ s.step.size → s.step.size < s.size →
      Framed c s.step (f name) (g name) R) :
    Framed c s (expectName m >>= f) (expectName m >>= g) R := by
  simp only [Parser.expectName, bind_assoc]
  refine peek ?_
  cases hn : s.next.name? with
  | none => exact (throw hs).bind fun _ _ h => False.elim h
  | some name =>
    simp only [bind_assoc, pure_bind]
    exact read (isInner_of_name hn) hs (h name hn)

theorem of_out {p q : Parser α} {Q : α → State → Prop} {a : α} (hp : out p s = (.ok a, s))
    (hq : ∀ t, t.next = s.next → out q t = (.ok a, t)) (h : Q a s) : Framed c s p q Q := by
  intro _
  rw [hp]
  refine ⟨List.suffix_refl _, rfl, fun _ => .inl rfl, ?_, (fun e he => nomatch he),
    fun t ht hn => ?_⟩
  · rintro _ ⟨⟩
    exact h
  · exact ⟨t, hq t (ht.next hn), ht⟩

/-- Both runs may have bounds that exceed the count of tokens ahead. -/
theorem get {f g : State → Parser β} (h : ∀ t, s.size ≤ t.size → Framed c s (f s) (g t) R) :
    Framed c s (get >>= f) (get >>= g) R := by
  intro hr
  obtain ⟨hs, he, ha, hok, herr, -⟩ := h s (Nat.le_refl _) hr
  refine ⟨hs, he, ha, hok, herr, fun t ht hn => ?_⟩
  have hsize : s.size ≤ t.size := by
    rw [State.size, State.size, ht.ahead, List.length_append]
    exact Nat.le_add_right _ _
  exact (h t hsize hr).longer t ht hn

theorem modify {u : State → State} {f g : Unit → Parser β} (hs : (u s).ahead = s.ahead)
    (he : (u s).eof = s.eof) (ha : c.tidy = true → (u s).arrays = s.arrays ∨ (u s).ahead = [])
    (hu : ∀ t, c.Extends s t → c.Extends (u s) (u t)) (h : Framed c (u s) (f ()) (g ()) R) :
    Framed c s (modify u >>= f) (modify u >>= g) R := by
  intro hr
  have hsuffix : (u s).ahead <:+ s.ahead := hs ▸ List.suffix_refl _
  obtain ⟨hs', he', ha', hok, herr, hl⟩ := h (hr.of_suffix hsuffix he)
  rw [out_bind_of_ok (out_modify u s)]
  refine ⟨hs'.trans hsuffix, he'.trans he, fun hc => arrays_trans (ha hc) (ha' hc) hs', hok, herr,
    fun t ht hn => ?_⟩
  rw [out_bind_of_ok (out_modify u t)]
  exact hl (u t) (hu t ht) hn

theorem report {e : Error} {f g : Unit → Parser β}
    (h : Framed c { s with errors := s.errors ++ [e] } (f ()) (g ()) R) :
    Framed c s (report e >>= f) (report e >>= g) R := by
  refine modify rfl rfl (fun _ => .inl rfl) (fun t ht => ?_) h
  refine ⟨ht.ahead, ht.eof, ?_, ht.last, ht.arrays⟩
  rw [ht.errors, List.append_assoc]

theorem previous {f g : Token → Parser β} (hn : s.size < c.bound)
    (h : Framed c s (f s.last) (g s.last) R) : Framed c s (previous >>= f) (previous >>= g) R :=
  look out_previous (fun _ _ ht _ => ht.last hn) h

theorem atEnd {f g : Bool → Parser β} (h : Framed c s (f s.ahead.isEmpty) (g s.ahead.isEmpty) R) :
    Framed c s (atEnd >>= f) (atEnd >>= g) R := by
  refine look out_atEnd (fun t _ ht hn => ?_) h
  rcases hn with hx | ⟨u, rest, hu, -⟩
  · rw [ht.ahead, hx, Option.getD_none, List.append_nil]
  · rw [ht.ahead, hu]
    rfl

theorem isArray {name : String} {f g : Bool → Parser β} (hn : c.watched (Text.upper name))
    (h : Framed c s (f (s.arrays.contains (Text.upper name)))
      (g (s.arrays.contains (Text.upper name))) R) :
    Framed c s (isArray name >>= f) (isArray name >>= g) R :=
  look (l := fun s => s.arrays.contains (Text.upper name)) (fun _ => rfl)
    (fun _ _ ht _ => ht.arrays _ hn) h

theorem checkBoth {k : Token.Kind} (hk : k ≠ .symbol .semicolon) {test : Token → Bool}
    {m m' n n' : Parser β}
    (ht : s.next.kind = k → test s.second = true → Framed c s m m' R) (hf : Framed c s n n' R) :
    Framed c s
      (Parser.check k >>= fun a => Parser.peekNext >>= fun t =>
        if (a && test t) = true then m else n)
      (Parser.check k >>= fun a => Parser.peekNext >>= fun t =>
        if (a && test t) = true then m' else n') R := by
  refine check ?_
  by_cases h : s.next.kind = k
  · simp only [h, beq_self_eq_true, Bool.true_and]
    refine peekNext (.inr (by rwa [h])) ?_
    cases htest : test s.second with
    | true => exact ht h htest
    | false => exact hf
  · simp only [beq_eq_false_iff_ne.mpr h, Bool.false_and, Bool.false_eq_true, if_false]
    exact fun hr => hf hr

end Framed

/-! ### Loops -/

/-- What holds after a pass of a loop, whether it is the last one or not. -/
def Pass.Holds (next : α → State → Prop) (Q : β → State → Prop) : Pass α β → State → Prop
  | .again a, s => next a s
  | .done b, s => Q b s

namespace Framed

variable {Q : β → State → Prop} {pass pass' : α → Parser (Pass α β)} {item item' : α → Parser α}

/-- A loop whose passes read a token, but for the last one, does not run out of passes. -/
theorem repeatUpTo {I : α → State → Prop} {n m : Nat} {a : α} (hn : s.size < n) (hm : s.size < m)
    (hI : I a s)
    (h : ∀ a s', I a s' → s'.size ≤ s.size → Framed c s' (pass a) (pass' a)
      (Pass.Holds (fun a s'' => I a s'' ∧ s''.size < s'.size) Q)) :
    Framed c s (repeatUpTo pass n a) (repeatUpTo pass' m a) Q := by
  induction n generalizing m a s with
  | zero => omega
  | succ n ih =>
    obtain ⟨m, rfl⟩ : ∃ k, m = k + 1 := ⟨m - 1, by omega⟩
    unfold Parser.repeatUpTo
    refine (h a s hI (Nat.le_refl _)).bind fun r s₁ hr => ?_
    cases r with
    | done b => exact pure hr
    | again a' =>
      obtain ⟨hI', hlt⟩ := hr
      refine ih (by omega) (by omega) hI' fun a s' hs hle => h a s' hs (by omega)

theorem repeated {I : α → State → Prop} {a : α} (hI : I a s)
    (h : ∀ a s', I a s' → s'.size ≤ s.size → Framed c s' (pass a) (pass' a)
      (Pass.Holds (fun a s'' => I a s'' ∧ s''.size < s'.size) Q)) :
    Framed c s (repeated a pass) (repeated a pass') Q := by
  unfold Parser.repeated
  refine get fun t ht => ?_
  exact repeatUpTo (Nat.lt_succ_self _) (Nat.lt_succ_of_le ht) hI h

theorem untilSemicolon {a : α} (hs : c.floor ≤ s.size)
    (h : ∀ a s', c.floor ≤ s'.size → s'.size ≤ s.size → s'.next.kind ≠ .symbol .semicolon →
      Framed c s' (item a) (item' a) fun _ s'' => c.floor ≤ s''.size ∧ s''.size < s'.size) :
    Framed c s (untilSemicolon a item) (untilSemicolon a item') fun _ s' =>
      s'.next.kind = .symbol .semicolon ∧ c.floor ≤ s'.size ∧ s'.size ≤ s.size := by
  unfold Parser.untilSemicolon
  refine repeated (I := fun _ s' => c.floor ≤ s'.size) hs fun a s' hf hle => ?_
  refine check ?_
  by_cases hk : s'.next.kind = .symbol .semicolon
  · simp only [hk, beq_self_eq_true, if_true]
    exact pure ⟨hk, hf, hle⟩
  · simp only [beq_eq_false_iff_ne.mpr hk, Bool.false_eq_true, if_false]
    exact (h a s' hf hle hk).bind fun a' s₁ h₁ => pure h₁

theorem recover {p q : Parser α} {Q : α → State → Prop} (h : Framed c s p q Q) :
    Framed c s (recover p) (recover q) fun r s' =>
      match r with
      | some a => Q a s'
      | none => s'.size ≤ s.size ∧ (0 < s.size → s'.size < s.size) := by
  intro hr
  obtain ⟨hsuffix, he, ha, hok, -, hl⟩ := h hr
  generalize hp : out p s = x at hsuffix he ha hok hl
  obtain ⟨r, s₁⟩ := x
  cases r with
  | ok a =>
    rw [out_recover_of_ok hp]
    refine ⟨hsuffix, he, ha, ?_, (fun e he => nomatch he), fun t ht hn => ?_⟩
    · rintro _ ⟨⟩
      exact hok a rfl
    · obtain ⟨t', hq, ht'⟩ := hl t ht hn
      exact ⟨t', out_recover_of_ok hq, ht'⟩
  | error e =>
    rw [out_recover_of_error hp]
    have hsync := State.resync_suffix { s₁ with errors := s₁.errors ++ [e] }
    refine ⟨hsync.trans hsuffix, (State.eof_resync _).trans he,
      fun hc => arrays_trans (ha hc) (.inl (State.arrays_resync _)) hsync, ?_,
      (fun e he => nomatch he), fun t ht hn => ?_⟩
    · rintro _ ⟨⟩
      exact ⟨(hsync.trans hsuffix).length_le, State.size_resync_lt hsuffix.length_le⟩
    · obtain ⟨t₁, hq, ht₁⟩ := hl t ht (hn.of_suffix hsync)
      refine ⟨_, out_recover_of_error hq, Frame.Extends.resync ?_ hn⟩
      refine ⟨ht₁.ahead, ht₁.eof, ?_, ht₁.last, ht₁.arrays⟩
      rw [ht₁.errors, List.append_assoc]

theorem recover_lt {p q : Parser α} (h : Framed c s p q fun _ s' => s'.size < s.size)
    (hs : 0 < s.size) :
    Framed c s (Parser.recover p) (Parser.recover q) fun _ s' => s'.size < s.size :=
  (recover h).mono fun r _ hr => by
    cases r with
    | some a => exact hr
    | none => exact hr.2 hs

theorem recover_le {p q : Parser α} (h : Framed c s p q fun _ s' => s'.size ≤ s.size) :
    Framed c s (Parser.recover p) (Parser.recover q) fun _ s' => s'.size ≤ s.size :=
  (recover h).mono fun r _ hr => by
    cases r with
    | some a => exact hr
    | none => exact hr.1

end Framed

end StepLang.Parser
