import Mathlib.Order.Nat
import StepLang.Proofs.Parser.StatementProgress

/-! # Endings and errors

An ending is a RUN or QUIT between two semicolons. A statement that is read does not hold one. One
that is malformed and passed over takes one ending with it at most, and its error is reported. So
the endings ahead and the errors reported are together never fewer behind a parser than before it.
-/

namespace StepLang.Parser

variable {α β : Type} {s s' : State} {t : Token} {ts : List Token}

/-! ### Endings -/

def isClosing (k : Token.Kind) : Bool :=
  k == .keyword .RUN || k == .keyword .QUIT

def isEnding (t : Token) : List Token → Bool
  | u :: v :: _ => t.kind == .symbol .semicolon && isClosing u.kind && v.kind == .symbol .semicolon
  | _ => false

def endings : List Token → Nat
  | [] => 0
  | t :: ts => (isEnding t ts).toNat + endings ts

namespace State

def atEnding (s : State) : Bool := isEnding s.last s.ahead

/-- No ending is next. -/
abbrev Clear (s : State) : Prop := s.atEnding = false

/-- The endings ahead and the errors so far. -/
def account (s : State) : Nat := endings (s.last :: s.ahead) + s.errors.length

theorem clear_of_last (h : s.last.kind ≠ .symbol .semicolon) : s.Clear := by
  unfold State.Clear State.atEnding isEnding
  split
  · simp [beq_eq_false_iff_ne.mpr h]
  · rfl

theorem clear_of_next (h : isClosing s.next.kind = false) : s.Clear := by
  unfold State.Clear State.atEnding isEnding
  split
  · rename_i u v rest hs
    rw [next, hs, List.headD_cons] at h
    simp [h]
  · rfl

theorem isBoundary_of_atEnding (h : s.atEnding = true) : s.isBoundary = true := by
  unfold State.atEnding isEnding at h
  split at h
  · rename_i u v rest hs
    simp only [Bool.and_eq_true, beq_iff_eq] at h
    obtain ⟨⟨-, hu⟩, hv⟩ := h
    unfold isBoundary
    rw [next, second, hs]
    simp only [List.headD_cons, List.tail_cons, hv]
    simp only [isClosing, Bool.or_eq_true, beq_iff_eq] at hu
    rcases hu with hu | hu <;> simp [hu]
  · cases h

theorem clear_step (hs : s.Clear) (hn : s.next.kind ≠ .symbol .semicolon) : s.step.Clear := by
  cases h : s.ahead with
  | nil =>
    have hstay : s.step.ahead = s.ahead ∧ s.step.last = s.last := by simp [step, h]
    rwa [Clear, atEnding, hstay.1, hstay.2]
  | cons u rest =>
    refine clear_of_last ?_
    unfold next at hn
    unfold step
    rw [h] at hn ⊢
    exact hn

theorem account_eq_step (s : State) : s.account = s.atEnding.toNat + s.step.account := by
  unfold account State.atEnding step
  cases s.ahead with
  | nil => exact (Nat.zero_add _).symm
  | cons u rest => exact Nat.add_assoc _ _ _

theorem endings_skipped {skipped : List Token} (h : ∀ u ∈ skipped, u.kind ≠ .symbol .semicolon) :
    endings (skipped ++ ts) = endings ts := by
  induction skipped with
  | nil => rfl
  | cons u skipped ih =>
    obtain ⟨hu, hskipped⟩ := List.forall_mem_cons.mp h
    have hnot : isEnding u (skipped ++ ts) = false := by
      unfold isEnding
      split
      · simp [beq_eq_false_iff_ne.mpr hu]
      · rfl
    rw [List.cons_append, endings, hnot, ih hskipped]
    exact Nat.zero_add _

/-- Passing over the rest of a statement takes the ending with it that is next, and no other. -/
theorem account_eq_resync (s : State) : s.account = s.atEnding.toNat + s.resync.account := by
  rcases semicolon_cases s.ahead with ⟨skipped, t, rest, h, ht, hs⟩ | h
  · rw [resync_of_append h hs ht]
    simp only [account, State.atEnding, endings, h, endings_skipped hs, Nat.add_assoc]
  · have hnone : endings s.ahead = 0 := by
      rw [← List.append_nil s.ahead, endings_skipped h, endings]
    rw [resync_of_none h]
    simp [account, State.atEnding, endings, isEnding, hnone]

theorem account_le_resync (s : State) : s.account ≤ s.resync.account + 1 := by
  have hle := Bool.toNat_le s.atEnding
  rw [account_eq_resync]
  omega

theorem account_resync_reported (s : State) (e : Error) :
    (resync { s with errors := s.errors ++ [e] }).account = s.resync.account + 1 := by
  have hs := account_eq_resync s
  have hreported := account_eq_resync { s with errors := s.errors ++ [e] }
  simp only [account, State.atEnding, List.length_append, List.length_singleton] at *
  omega

theorem account_step (h : s.Clear) : s.step.account = s.account := by
  rw [account_eq_step s, h, Bool.toNat_false, Nat.zero_add]

/-- Two endings do not stand side by side. -/
theorem account_le_resync_step (s : State) : s.account ≤ s.step.resync.account + 1 := by
  rw [account_eq_step]
  cases hs : s.atEnding with
  | false =>
    have hle := s.step.account_le_resync
    simpa using hle
  | true =>
    have hstep : s.step.atEnding = false := by
      unfold State.atEnding isEnding at hs
      split at hs
      · rename_i u v rest hahead
        refine clear_of_last ?_
        unfold step
        rw [hahead]
        simp only [Bool.and_eq_true, isClosing, Bool.or_eq_true, beq_iff_eq] at hs
        rcases hs.1.2 with hu | hu <;> simp [hu]
      · cases hs
    rw [account_eq_resync, hstep]
    simp [Nat.add_comm]

end State

/-! ### Parsers that spare the endings -/

/-- From the state the parser moves on, the endings ahead and the errors are together no fewer
behind it, and a result that it gives is as the condition says. If it fails, they are no fewer once
its error is reported and the rest of the statement is passed over. -/
def Spares (p : Parser α) (s : State) (Q : α → State → Prop) : Prop :=
  Moves s (out p s).2 ∧
    match out p s with
    | (.ok a, s') => s.account ≤ s'.account ∧ Q a s'
    | (.error _, s') => s.account ≤ s'.resync.account + 1

/-- Where no ending is next the parser spares the endings, and none is next behind it. -/
def StaysClear (p : Parser α) : Prop :=
  ∀ s, s.Clear → Spares p s fun _ s' => s'.Clear

/-- Where no ending is next the parser spares the endings. -/
def SparesFromClear (p : Parser α) : Prop :=
  ∀ s, s.Clear → Spares p s fun _ _ => True

/-- Where no ending is next, nor a semicolon, the parser spares the endings. -/
def SparesFromWord (p : Parser α) : Prop :=
  ∀ s, s.Clear → s.next.kind ≠ .symbol .semicolon → Spares p s fun _ _ => True

namespace Spares

variable {p : Parser α} {f : α → Parser β} {Q R : α → State → Prop} {T : β → State → Prop}

theorem pure {a : α} (h : Q a s) : Spares (pure a) s Q :=
  ⟨.refl s, Nat.le_refl _, h⟩

theorem throw {e : Error} : Spares (throw e) s Q :=
  ⟨.refl s, s.account_le_resync⟩

theorem bind (hp : Spares p s R) (hf : ∀ a s', R a s' → Spares (f a) s' T) :
    Spares (p >>= f) s T := by
  obtain ⟨hmoves, hp⟩ := hp
  unfold Spares
  generalize hout : out p s = x at hmoves hp
  obtain ⟨r, s'⟩ := x
  cases r with
  | error e =>
    rw [out_bind_of_error hout]
    exact ⟨hmoves, hp⟩
  | ok a =>
    obtain ⟨hmoves', hrest⟩ := hf a s' hp.2
    rw [out_bind_of_ok hout]
    refine ⟨hmoves.trans hmoves', ?_⟩
    split at hrest
    · exact ⟨hp.1.trans hrest.1, hrest.2⟩
    · exact hp.1.trans hrest

theorem look {l : State → α} (hl : ∀ s, out p s = (.ok (l s), s)) (h : Spares (f (l s)) s T) :
    Spares (p >>= f) s T := by
  unfold Spares
  rwa [out_bind_of_ok (hl s)]

theorem advance {f : Token → Parser β} (hs : s.Clear)
    (h : (s.next.kind ≠ .symbol .semicolon → s.step.Clear) → Spares (f s.next) s.step T) :
    Spares (advance >>= f) s T := by
  obtain ⟨hmoves, hrest⟩ := h (State.clear_step hs)
  unfold Spares
  rw [out_bind_of_ok (out_advance s), ← State.account_step hs]
  exact ⟨(Moves.step s).trans hmoves, hrest⟩

/-- Reads a token inside a statement. -/
theorem read {f : Token → Parser β} (hs : s.Clear) (hn : s.next.kind ≠ .symbol .semicolon)
    (h : s.step.Clear → Spares (f s.next) s.step T) : Spares (Parser.advance >>= f) s T :=
  advance hs fun hstep => h (hstep hn)

theorem advance_throw {f : Token → Parser β} {e : Error} (h : f s.next = MonadExcept.throw e) :
    Spares (Parser.advance >>= f) s T := by
  unfold Spares
  rw [out_bind_of_ok (out_advance s), h]
  exact ⟨.step s, s.account_le_resync_step⟩

theorem accept {k : Token.Kind} {f : Bool → Parser β} (hk : isClosing k = false)
    (ht : (k ≠ .symbol .semicolon → s.step.Clear) → Spares (f true) s.step T)
    (hf : s.next.kind ≠ k → Spares (f false) s T) : Spares (accept k >>= f) s T := by
  simp only [Parser.accept, bind_assoc]
  refine look (out_check k) ?_
  by_cases h : s.next.kind = k
  · simp only [h, beq_self_eq_true, if_true, bind_assoc, pure_bind]
    exact advance (State.clear_of_next (h ▸ hk)) (h ▸ ht)
  · simp only [beq_eq_false_iff_ne.mpr h, Bool.false_eq_true, if_false, pure_bind]
    exact hf h

theorem acceptSymbol {k : Symbol} {f : Bool → Parser β} (hk : k ≠ .semicolon)
    (ht : s.step.Clear → Spares (f true) s.step T)
    (hf : s.next.kind ≠ .symbol k → Spares (f false) s T) :
    Spares (Parser.accept (.symbol k) >>= f) s T :=
  accept (by simp [isClosing]) (fun h => ht (h (by simpa using hk))) hf

theorem acceptOrNot {k : Symbol} {f : Bool → Parser β} (hk : k ≠ .semicolon) (hs : s.Clear)
    (h : ∀ b s', s'.Clear → Spares (f b) s' T) : Spares (Parser.accept (.symbol k) >>= f) s T :=
  acceptSymbol hk (fun hstep => h true _ hstep) fun _ => h false s hs

theorem acceptSemicolon {f : Bool → Parser β} (ht : Spares (f true) s.step T)
    (hf : s.next.kind ≠ .symbol .semicolon → Spares (f false) s T) :
    Spares (Parser.accept (.symbol .semicolon) >>= f) s T :=
  accept (by simp [isClosing]) (fun _ => ht) hf

theorem acceptKeyword {k : Keyword} {f : Bool → Parser β} (hk : isClosing (.keyword k) = false)
    (ht : s.step.Clear → Spares (f true) s.step T)
    (hf : s.next.kind ≠ .keyword k → Spares (f false) s T) :
    Spares (Parser.accept (.keyword k) >>= f) s T :=
  accept hk (fun h => ht (h (by simp))) hf

theorem acceptOrFail {k : Token.Kind} {m : String} {f : Unit → Parser β} (hk : isClosing k = false)
    (h : (k ≠ .symbol .semicolon → s.step.Clear) → Spares (f ()) s.step T) :
    Spares
      (Parser.accept k >>= fun b =>
        (unless b do MonadExcept.throw (unexpected m (← peek))) >>= f) s T := by
  refine accept hk (fun hstep => ?_) fun _ => ?_
  · simpa using h hstep
  · simp only [Bool.false_eq_true, if_false, bind_assoc]
    exact look out_peek ((throw (Q := fun _ _ => False)).bind fun _ _ h => h.elim)

theorem expectSymbol {k : Symbol} {m : String} {f : Unit → Parser β} (hk : k ≠ .semicolon)
    (h : s.step.Clear → Spares (f ()) s.step T) : Spares (expectSymbol k m >>= f) s T := by
  simp only [Parser.expectSymbol, bind_assoc]
  exact acceptOrFail (by simp [isClosing]) fun hstep => h (hstep (by simpa using hk))

theorem expectSemicolon {f : Unit → Parser β} (h : Spares (f ()) s.step T) :
    Spares (expectSemicolon >>= f) s T := by
  simp only [Parser.expectSemicolon, Parser.expectSymbol, bind_assoc]
  exact acceptOrFail (by simp [isClosing]) fun _ => h

theorem expectKeyword {k : Keyword} {m : String} {f : Unit → Parser β}
    (hk : isClosing (.keyword k) = false) (h : s.step.Clear → Spares (f ()) s.step T) :
    Spares (expectKeyword k m >>= f) s T := by
  simp only [Parser.expectKeyword, bind_assoc]
  exact acceptOrFail hk fun hstep => h (hstep (by simp))

theorem expectName {m : String} {f : String → Parser β} (hs : s.Clear)
    (h : ∀ name, s.step.Clear → Spares (f name) s.step T) :
    Spares (expectName m >>= f) s T := by
  simp only [Parser.expectName, bind_assoc]
  refine look out_peek ?_
  cases hn : s.next.name? with
  | none => exact (throw (Q := fun _ _ => False)).bind fun _ _ h => h.elim
  | some name =>
    simp only [bind_assoc, pure_bind]
    exact read hs (isInner_of_name hn).1 (h name)

theorem modify {g : State → State} {f : Unit → Parser β} (hmoves : Moves s (g s))
    (hg : (g s).account = s.account) (h : Spares (f ()) (g s) T) : Spares (modify g >>= f) s T := by
  unfold Spares
  rw [out_bind_of_ok (out_modify g s), ← hg]
  exact ⟨hmoves.trans h.1, h.2⟩

theorem recover (h : Spares p s Q) : Spares (recover p) s fun r s' => ∀ a, r = some a → Q a s' := by
  obtain ⟨hmoves, h⟩ := h
  unfold Spares
  generalize hout : out p s = x at hmoves h
  obtain ⟨r, s'⟩ := x
  cases r with
  | ok a =>
    rw [out_recover_of_ok hout]
    refine ⟨hmoves, h.1, ?_⟩
    rintro _ ⟨⟩
    exact h.2
  | error e =>
    rw [out_recover_of_error hout]
    have hreported : Moves s { s' with errors := s'.errors ++ [e] } := ⟨hmoves.read, hmoves.eof⟩
    refine ⟨hreported.trans (.resync _), s'.account_resync_reported e ▸ h, ?_⟩
    intro a ha
    cases ha

variable {pass : α → Parser (Pass α β)} {I : State → Prop}

theorem repeatUpTo {n : Nat} {a : α} (hs : I s)
    (h : ∀ a s, I s → Spares (pass a) s (Pass.Holds (fun _ s' => I s') T)) :
    Spares (repeatUpTo pass n a) s T := by
  induction n generalizing a s with
  | zero => exact throw
  | succ n ih =>
    refine (h a s hs).bind fun r s' hr => ?_
    cases r with
    | again a' => exact ih hr
    | done b => exact pure hr

theorem repeated {a : α} (hs : I s)
    (h : ∀ a s, I s → Spares (pass a) s (Pass.Holds (fun _ s' => I s') T)) :
    Spares (repeated a pass) s T :=
  look out_get (repeatUpTo hs h)

end Spares

theorem StaysClear.map {p : Parser α} (h : StaysClear p) (f : α → β) :
    StaysClear (do return f (← p)) :=
  fun s hs => (h s hs).bind fun _ _ hs₁ => .pure hs₁

theorem SparesFromClear.map {p : Parser α} (h : SparesFromClear p) (f : α → β) :
    SparesFromClear (do return f (← p)) :=
  fun s hs => (h s hs).bind fun _ _ _ => .pure trivial

theorem staysClear_list {item : α → Parser α} {a : α}
    (h : ∀ a s, s.Clear → s.next.kind ≠ .symbol .semicolon →
      Spares (item a) s fun _ s' => s'.Clear) :
    StaysClear (repeated a (listPass item)) := by
  refine fun s hs => Spares.repeated hs fun a s hs => .look (out_check _) ?_
  split
  · exact .pure hs
  · rename_i hk
    exact (h a s hs (by simpa using hk)).bind fun a' s' hs' => .pure hs'

theorem staysClear_items {item : α → Parser α} {a : α} (h : ∀ a, StaysClear (item a)) :
    StaysClear (repeated a (listPass item)) :=
  staysClear_list fun a s hs _ => h a s hs

/-! ### Names -/

theorem staysClear_datasetRef : StaysClear datasetRef := by
  refine fun s hs => .expectName hs fun first hs₁ => ?_
  refine .acceptSymbol (by simp) (fun hs₂ => ?_) fun _ => .pure hs₁
  exact .expectName hs₂ fun name hs₃ => .pure hs₃

theorem staysClear_nameOrRange : StaysClear nameOrRange := by
  refine fun s hs => .expectName hs fun first hs₁ => .look (out_check _) (.look out_peekNext ?_)
  split
  · rename_i hk
    have hminus : s.step.next.kind = .symbol .minus := by
      simpa using (Bool.and_eq_true_iff.mp hk).1
    refine .read hs₁ (by simp [hminus]) fun hs₂ => .look out_peek ?_
    refine .expectName hs₂ fun last hs₃ => ?_
    split
    · exact .pure hs₃
    · exact .throw
  · exact .pure hs₁

theorem staysClear_datasetItem (refs : List DatasetRef) : StaysClear (datasetItem refs) :=
  staysClear_datasetRef.map _

theorem spares_datasetList : SparesFromClear datasetList := by
  rw [datasetList_eq]
  refine fun s hs => (staysClear_items staysClear_datasetItem s hs).bind
    fun refs s₁ _ => .expectSemicolon ?_
  split
  · exact .look out_previous .throw
  · exact .pure trivial

theorem staysClear_byItem (read : List ByVariable × Bool) : StaysClear (byItem read) := by
  refine fun s hs => .look (out_check _) (.look out_peekNext ?_)
  split
  · rename_i hk
    have hkind : s.next.kind = .keyword .DESCENDING := by
      simpa using (Bool.and_eq_true_iff.mp hk).1
    exact .read hs (by simp [hkind]) fun hs₁ => .pure hs₁
  · exact .expectName hs fun name hs₁ => .pure hs₁

theorem spares_byList : SparesFromClear byList := by
  rw [byList_eq]
  refine fun s hs => (staysClear_items staysClear_byItem s hs).bind
    fun read s₁ _ => .expectSemicolon ?_
  split
  · exact .look out_previous .throw
  · exact .pure trivial

theorem staysClear_nameItem (names : List String) : StaysClear (nameItem names) :=
  staysClear_nameOrRange.map _

theorem spares_nameList : SparesFromClear nameList := by
  rw [nameList_eq]
  exact fun s hs => (staysClear_items staysClear_nameItem s hs).bind
    fun names s₁ _ => .expectSemicolon (.pure trivial)

/-! ### Expressions -/

variable {e : Parser Expression}

theorem ne_semicolon_of_closing {k : Token.Kind} {close : Symbol} (h : closing? k = some close) :
    k ≠ .symbol .semicolon := by
  rintro rfl
  cases h

theorem staysClear_subscript (he : StaysClear e) : StaysClear (subscript e) := by
  refine fun s hs => .advance hs fun hstep => ?_
  cases hclose : closing? s.next.kind with
  | none => exact .throw
  | some close =>
    refine (he s.step (hstep (ne_semicolon_of_closing hclose))).bind fun index s₁ _ => ?_
    exact .expectSymbol (closing_ne_semicolon hclose) fun hs₂ => .pure hs₂

theorem spares_variablePass (names : List String) {s : State} (hs : s.Clear) :
    Spares (variablePass names) s (Pass.Holds (fun _ s' => s'.Clear) fun _ s' => s'.Clear) := by
  refine .acceptSymbol (by simp) (fun hs₁ => .pure hs₁) fun _ => .expectName hs fun first hs₁ => ?_
  refine .acceptSymbol (by simp) (fun hs₂ => ?_) fun _ => .pure hs₁
  exact .expectName hs₂ fun last hs₃ => .pure hs₃

theorem spares_variableList {s : State} (hs : s.Clear) (hn : s.next.kind ≠ .symbol .semicolon) :
    Spares variableList s fun _ s' => s'.Clear := by
  rw [variableList_eq]
  refine .read hs hn fun hs₁ => ?_
  refine (Spares.repeated hs₁ fun names s hs => spares_variablePass names hs).bind ?_
  exact fun names s' hs' => .pure hs'

theorem Spares.atVariableList {f : Bool → Parser β} {T : β → State → Prop}
    (h : ∀ b, (b = true → s.next.kind ≠ .symbol .semicolon) → Spares (f b) s T) :
    Spares (atVariableList >>= f) s T := by
  simp only [Parser.atVariableList, bind_assoc]
  refine .look out_peek ?_
  split
  · rename_i word hk
    simp only [bind_assoc, pure_bind]
    exact .look out_peekNext (h _ fun _ => by simp [hk])
  · exact h false (by simp)

theorem staysClear_arguments (he : StaysClear e) : StaysClear (arguments e) := by
  rw [arguments_eq]
  refine fun s hs => .acceptSymbol (by simp) (fun hs₁ => .pure hs₁) fun _ =>
    .atVariableList fun b hb => ?_
  cases b with
  | true => exact spares_variableList hs (hb rfl)
  | false =>
    refine .repeated (I := State.Clear) hs fun args s hs => (he s hs).bind fun arg s₁ hs₁ => ?_
    refine .acceptSymbol (by simp) (fun hs₂ => .pure hs₂) fun _ => ?_
    exact .expectSymbol (by simp) fun hs₂ => .pure hs₂

theorem staysClear_nameSuffix (he : StaysClear e) (name : String) :
    StaysClear (nameSuffix e name) := by
  intro s hs
  have hsub : Spares (do return Expression.element name (← subscript e)) s fun _ s' => s'.Clear :=
    (staysClear_subscript he).map _ s hs
  refine .look out_peek ?_
  split
  · exact hsub
  · exact hsub
  · rename_i hk
    refine .look (out_isArray name) ?_
    split
    · exact hsub
    · refine .read hs (by simp [hk]) fun hs₁ => ?_
      exact (staysClear_arguments he _ hs₁).bind fun args s₂ hs₂ => .pure hs₂
  · exact .pure hs

theorem staysClear_primary (he : StaysClear e) : StaysClear (primary e) := by
  refine fun s hs => .look out_peek ?_
  split
  · rename_i hk
    exact .read hs (by simp [hk]) fun hs₁ => .pure hs₁
  · rename_i hk
    exact .read hs (by simp [hk]) fun hs₁ => .pure hs₁
  · rename_i hk
    exact .read hs (by simp [hk]) fun hs₁ => .pure hs₁
  · rename_i hk
    exact .read hs (by simp [hk]) fun hs₁ => .pure hs₁
  · rename_i hk
    refine .read hs (by simp [hk]) fun hs₁ => (he _ hs₁).bind fun inner s₂ _ => ?_
    exact .expectSymbol (by simp) fun hs₃ => .pure hs₃
  · split
    · rename_i name hname
      exact .read hs (isInner_of_name hname).1 fun hs₁ => staysClear_nameSuffix he name _ hs₁
    · exact .throw

theorem ne_semicolon_of_unary {k : Token.Kind} {op : UnaryOp} (h : unaryOp? k = some op) :
    k ≠ .symbol .semicolon := by
  rintro rfl
  cases h

theorem ne_semicolon_of_binary {k : Token.Kind} {op : BinaryOp} (h : binaryOp? k = some op) :
    k ≠ .symbol .semicolon := by
  rintro rfl
  cases h

theorem staysClear_unary (he : StaysClear e) (n : Nat) : StaysClear (unary e n) := by
  induction n with
  | zero => exact fun s _ => .throw
  | succ n ih =>
    unfold unary
    refine fun s hs => .look out_peek ?_
    cases hop : unaryOp? s.next.kind with
    | none => exact staysClear_primary he s hs
    | some op =>
      refine .read hs (ne_semicolon_of_unary hop) fun hs₁ => ?_
      exact (ih _ hs₁).bind fun operand s₂ hs₂ => .pure hs₂

theorem staysClear_operation (depth strength : Nat) : StaysClear (operation depth strength) := by
  induction depth generalizing strength with
  | zero => exact fun s _ => .throw
  | succ depth ih =>
    rw [operation_eq]
    refine fun s hs => .look out_get ((staysClear_unary (ih 1) _ s hs).bind fun first s₁ hs₁ => ?_)
    refine .repeated (I := State.Clear) hs₁ fun left s hs => .look out_peek ?_
    cases hop : binaryOp? s.next.kind with
    | none => exact .pure hs
    | some op =>
      dsimp only
      split
      · exact .pure hs
      · refine .read hs (ne_semicolon_of_binary hop) fun hs₂ => ?_
        exact (ih _ _ hs₂).bind fun right s₃ hs₃ => .pure hs₃

theorem staysClear_expression : StaysClear expression :=
  fun s hs => .look out_get (staysClear_operation _ 1 s hs)

end StepLang.Parser
