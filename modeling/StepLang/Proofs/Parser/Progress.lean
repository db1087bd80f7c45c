import Mathlib.Data.List.Induction
import StepLang.Proofs.Parser.Passes

/-! # Progress of the parsers

A parser moves forward over the tokens, whether it fails or not, and most of them read a token at
least if they give a result. As every loop and every nested call reads a token first, the bounds on
them do not show once they exceed the count of tokens ahead.
-/

namespace StepLang.Parser

variable {α β : Type} {s s' t : State}

/-! ### Moving over tokens -/

/-- The second state is the first after some of the tokens ahead, of which the last one is kept. -/
structure Moves (s s' : State) : Prop where
  read : ∃ read, s.ahead = read ++ s'.ahead ∧ s'.last = read.getLastD s.last
  eof : s'.eof = s.eof

namespace Moves

theorem refl (s : State) : Moves s s := ⟨⟨[], rfl, rfl⟩, rfl⟩

theorem trans (h : Moves s s') (h' : Moves s' t) : Moves s t := by
  obtain ⟨⟨read, ha, hl⟩, he⟩ := h
  obtain ⟨⟨read', ha', hl'⟩, he'⟩ := h'
  refine ⟨⟨read ++ read', ?_, ?_⟩, he'.trans he⟩
  · rw [ha, ha', List.append_assoc]
  · rw [hl', hl]
    cases read' using List.reverseRecOn with
    | nil => rw [List.append_nil, List.getLastD_nil]
    | append_singleton read' u =>
      rw [← List.append_assoc, List.getLastD_concat, List.getLastD_concat]

theorem step (s : State) : Moves s s.step := by
  refine ⟨?_, rfl⟩
  unfold State.step
  cases s.ahead with
  | nil => exact ⟨[], rfl, rfl⟩
  | cons u rest => exact ⟨[u], rfl, rfl⟩

theorem resync (s : State) : Moves s s.resync := by
  rcases State.semicolon_cases s.ahead with ⟨skipped, u, rest, h, hu, hs⟩ | h
  · rw [State.resync_of_append h hs hu]
    refine ⟨⟨skipped ++ [u], ?_, ?_⟩, rfl⟩
    · rw [h, List.append_assoc, List.singleton_append]
    · rw [List.getLastD_concat]
  · rw [State.resync_of_none h]
    exact ⟨⟨s.ahead, (List.append_nil _).symm, rfl⟩, rfl⟩

theorem size_le (h : Moves s s') : s'.size ≤ s.size := by
  obtain ⟨⟨read, ha, -⟩, -⟩ := h
  rw [State.size, State.size, ha, List.length_append]
  exact Nat.le_add_left _ _

end Moves

/-! ### Runs that proceed -/

theorem out_nextIsAssign (s : State) :
    out nextIsAssign s = (.ok (s.second.kind == .symbol .assign), s) := rfl

theorem out_isArray (name : String) (s : State) :
    out (isArray name) s = (.ok (s.arrays.contains (Text.upper name)), s) := rfl

/-- From the state both parsers do the same. They move on, and a result that they give is as the
condition says. -/
def Proceeds (p q : Parser α) (s : State) (Q : α → State → Prop) : Prop :=
  s.eof.kind = .endOfInput →
    out q s = out p s ∧ Moves s (out p s).2 ∧ ∀ a, (out p s).1 = .ok a → Q a (out p s).2

abbrev Shorter (s : State) (_ : α) (s' : State) : Prop := s'.size < s.size

theorem size_step_lt (he : s.eof.kind = .endOfInput) (hn : s.next.kind ≠ .endOfInput) :
    s.step.size < s.size := by
  refine size_step_of_pos (List.length_pos_iff.mpr fun h => hn ?_)
  rw [State.next, h]
  exact he

namespace Proceeds

variable {p q : Parser α} {f g : α → Parser β} {Q R : α → State → Prop} {T : β → State → Prop}

theorem ready (h : s.eof.kind = .endOfInput → Proceeds p q s Q) : Proceeds p q s Q :=
  fun he => h he he

theorem pure {a : α} (h : Q a s) : Proceeds (pure a) (pure a) s Q := by
  refine fun _ => ⟨rfl, .refl s, ?_⟩
  rintro _ ⟨⟩
  exact h

theorem throw {e : Error} : Proceeds (throw e) (throw e) s Q :=
  fun _ => ⟨rfl, .refl s, fun _ h => nomatch h⟩

theorem mono (h : Proceeds p q s R) (hQ : ∀ a s', s'.size ≤ s.size → R a s' → Q a s') :
    Proceeds p q s Q := by
  intro he
  obtain ⟨hsame, hmoves, hok⟩ := h he
  exact ⟨hsame, hmoves, fun a ha => hQ a _ hmoves.size_le (hok a ha)⟩

theorem bind (hp : Proceeds p q s R)
    (hf : ∀ a s', s'.size ≤ s.size → R a s' → Proceeds (f a) (g a) s' T) :
    Proceeds (p >>= f) (q >>= g) s T := by
  intro he
  obtain ⟨hsame, hmoves, hok⟩ := hp he
  generalize hout : out p s = x at hsame hmoves hok
  obtain ⟨r, s'⟩ := x
  cases r with
  | error e =>
    rw [out_bind_of_error hout, out_bind_of_error hsame]
    exact ⟨rfl, hmoves, fun _ h => nomatch h⟩
  | ok a =>
    obtain ⟨hsame', hmoves', hok'⟩ := hf a s' hmoves.size_le (hok a rfl) (hmoves.eof ▸ he)
    rw [out_bind_of_ok hout, out_bind_of_ok hsame]
    exact ⟨hsame', hmoves.trans hmoves', hok'⟩

theorem look {l : State → α} (hl : ∀ s, out p s = (.ok (l s), s))
    (h : Proceeds (f (l s)) (g (l s)) s T) : Proceeds (p >>= f) (p >>= g) s T := by
  intro he
  rw [out_bind_of_ok (hl s), out_bind_of_ok (hl s)]
  exact h he

theorem advance {f g : Token → Parser β} (h : Proceeds (f s.next) (g s.next) s.step T) :
    Proceeds (advance >>= f) (advance >>= g) s T := by
  intro he
  rw [out_bind_of_ok (out_advance s), out_bind_of_ok (out_advance s)]
  obtain ⟨hsame, hmoves, hok⟩ := h he
  exact ⟨hsame, (Moves.step s).trans hmoves, hok⟩

/-- Reads a token that is not the end of input. -/
theorem read {f g : Token → Parser β} (hn : s.next.kind ≠ .endOfInput)
    (h : s.step.size < s.size → Proceeds (f s.next) (g s.next) s.step T) :
    Proceeds (Parser.advance >>= f) (Parser.advance >>= g) s T :=
  ready fun he => advance (h (size_step_lt he hn))

theorem accept {k : Token.Kind} {f g : Bool → Parser β} (hk : k ≠ .endOfInput)
    (ht : s.step.size < s.size → Proceeds (f true) (g true) s.step T)
    (hf : s.next.kind ≠ k → Proceeds (f false) (g false) s T) :
    Proceeds (accept k >>= f) (accept k >>= g) s T := by
  simp only [Parser.accept, bind_assoc]
  refine look (out_check k) ?_
  by_cases h : s.next.kind = k
  · simp only [h, beq_self_eq_true, if_true, bind_assoc, pure_bind]
    exact read (h ▸ hk) ht
  · simp only [beq_eq_false_iff_ne.mpr h, Bool.false_eq_true, if_false, pure_bind]
    exact hf h

theorem acceptOrNot {k : Token.Kind} :
    Proceeds (Parser.accept k) (Parser.accept k) s fun _ _ => True := by
  intro _
  rw [out_accept]
  split
  · exact ⟨rfl, .step s, fun _ _ => trivial⟩
  · exact ⟨rfl, .refl s, fun _ _ => trivial⟩

theorem acceptOrFail {k : Token.Kind} {m : String} {f g : Unit → Parser β} (hk : k ≠ .endOfInput)
    (h : s.step.size < s.size → Proceeds (f ()) (g ()) s.step T) :
    Proceeds
      (Parser.accept k >>= fun b =>
        (unless b do MonadExcept.throw (unexpected m (← peek))) >>= f)
      (Parser.accept k >>= fun b =>
        (unless b do MonadExcept.throw (unexpected m (← peek))) >>= g) s T := by
  refine accept hk (fun hlt => ?_) fun _ => ?_
  · simpa using h hlt
  · simp only [Bool.false_eq_true, if_false, bind_assoc]
    refine look out_peek ?_
    exact (throw (Q := fun _ _ => False)).bind fun _ _ _ h => h.elim

theorem expectSymbol {k : Symbol} {m : String} {f g : Unit → Parser β}
    (h : s.step.size < s.size → Proceeds (f ()) (g ()) s.step T) :
    Proceeds (expectSymbol k m >>= f) (expectSymbol k m >>= g) s T := by
  simp only [Parser.expectSymbol, bind_assoc]
  exact acceptOrFail (by simp) h

theorem expectSemicolon {f g : Unit → Parser β}
    (h : s.step.size < s.size → Proceeds (f ()) (g ()) s.step T) :
    Proceeds (expectSemicolon >>= f) (expectSemicolon >>= g) s T :=
  expectSymbol h

theorem expectKeyword {k : Keyword} {m : String} {f g : Unit → Parser β}
    (h : s.step.size < s.size → Proceeds (f ()) (g ()) s.step T) :
    Proceeds (expectKeyword k m >>= f) (expectKeyword k m >>= g) s T := by
  simp only [Parser.expectKeyword, bind_assoc]
  exact acceptOrFail (by simp) h

theorem expectName {m : String} {f g : String → Parser β}
    (h : ∀ name, s.step.size < s.size → Proceeds (f name) (g name) s.step T) :
    Proceeds (expectName m >>= f) (expectName m >>= g) s T := by
  simp only [Parser.expectName, bind_assoc]
  refine look out_peek ?_
  cases hn : s.next.name? with
  | none => exact (throw (Q := fun _ _ => False)).bind fun _ _ _ h => h.elim
  | some name =>
    simp only [bind_assoc, pure_bind]
    exact read (isInner_of_name hn).2 (h name)

theorem modify {u : State → State} {f g : Unit → Parser β} (ha : (u s).ahead = s.ahead)
    (hl : (u s).last = s.last) (he : (u s).eof = s.eof) (h : Proceeds (f ()) (g ()) (u s) T) :
    Proceeds (modify u >>= f) (modify u >>= g) s T := by
  intro hkind
  rw [out_bind_of_ok (out_modify u s), out_bind_of_ok (out_modify u s)]
  obtain ⟨hsame, hmoves, hok⟩ := h (he ▸ hkind)
  have hfirst : Moves s (u s) := ⟨⟨[], ha.symm, hl⟩, he⟩
  exact ⟨hsame, hfirst.trans hmoves, hok⟩

theorem report {e : Error} {f g : Unit → Parser β}
    (h : Proceeds (f ()) (g ()) { s with errors := s.errors ++ [e] } T) :
    Proceeds (report e >>= f) (report e >>= g) s T :=
  modify rfl rfl rfl h

theorem recover (h : Proceeds p q s Q) : Proceeds (recover p) (recover q) s fun r s' =>
    (∀ a, r = some a → Q a s') ∧ (r = none → 0 < s.size → s'.size < s.size) := by
  intro he
  obtain ⟨hsame, hmoves, hok⟩ := h he
  generalize hout : out p s = x at hsame hmoves hok
  obtain ⟨r, s'⟩ := x
  cases r with
  | ok a =>
    rw [out_recover_of_ok hout, out_recover_of_ok hsame]
    refine ⟨rfl, hmoves, ?_⟩
    rintro _ ⟨⟩
    constructor
    · rintro _ ⟨⟩
      exact hok a rfl
    · intro h
      cases h
  | error e =>
    rw [out_recover_of_error hout, out_recover_of_error hsame]
    have hreported : Moves s { s' with errors := s'.errors ++ [e] } := ⟨hmoves.read, hmoves.eof⟩
    refine ⟨rfl, hreported.trans (.resync _), ?_⟩
    rintro _ ⟨⟩
    constructor
    · intro a ha
      cases ha
    · exact fun _ hpos => State.size_resync_lt hmoves.size_le hpos

theorem recover_lt (h : Proceeds p q s (Shorter s)) (hs : 0 < s.size) :
    Proceeds (Parser.recover p) (Parser.recover q) s (Shorter s) := by
  refine h.recover.mono fun r s' _ hr => ?_
  cases r with
  | some a => exact hr.1 a rfl
  | none => exact hr.2 rfl hs

end Proceeds

/-! ### Loops -/

/-- Two bounds that do the same from a state: they are one, or none of them is reached. -/
def Ample (s : State) (n m : Nat) : Prop := n = m ∨ s.size < n ∧ s.size < m

theorem Ample.eq_zero {m : Nat} (h : Ample s 0 m) : m = 0 := by
  unfold Ample at h
  omega

theorem Ample.exists_succ {n m : Nat} (h : Ample s (n + 1) m) : ∃ k, m = k + 1 := by
  refine ⟨m - 1, ?_⟩
  unfold Ample at h
  omega

theorem Ample.of_lt {n m : Nat} (h : Ample s (n + 1) (m + 1)) (hs : s'.size < s.size) :
    Ample s' n m := by
  unfold Ample at h ⊢
  omega

/-- A pass reads a token unless it is the last one; the last one is as the condition says. -/
abbrev Passes (s : State) (Q : β → State → Prop) : Pass α β → State → Prop :=
  Pass.Holds (Shorter s) Q

namespace Proceeds

variable {pass pass' : α → Parser (Pass α β)} {T : β → State → Prop}

theorem repeatUpTo {n m : Nat} {a : α} (hn : Ample s n m)
    (h : ∀ a s', s'.size ≤ s.size → Proceeds (pass a) (pass' a) s' (Passes s' T)) :
    Proceeds (repeatUpTo pass n a) (repeatUpTo pass' m a) s T := by
  induction n generalizing m a s with
  | zero =>
    obtain rfl := hn.eq_zero
    exact throw
  | succ n ih =>
    obtain ⟨m, rfl⟩ := hn.exists_succ
    refine (h a s (Nat.le_refl _)).bind fun r s' hle hr => ?_
    cases r with
    | done b => exact pure hr
    | again a' => exact ih (hn.of_lt hr) fun a t ht => h a t (by omega)

theorem repeated {a : α}
    (h : ∀ a s', s'.size ≤ s.size → Proceeds (pass a) (pass' a) s' (Passes s' T)) :
    Proceeds (repeated a pass) (repeated a pass') s T :=
  look out_get (repeatUpTo (.inl rfl) h)

theorem loop {R : State → β → State → Prop} {a : α}
    (h : ∀ a s', s'.size ≤ s.size → Proceeds (pass a) (pass' a) s' (Passes s' (R s'))) :
    Proceeds (Parser.repeated a pass) (Parser.repeated a pass') s fun _ _ => True := by
  refine repeated fun a s' hle => (h a s' hle).mono fun r t _ hr => ?_
  cases r with
  | again a => exact hr
  | done b => trivial

theorem loop_lt {a : α}
    (h : ∀ a s', s'.size ≤ s.size → Proceeds (pass a) (pass' a) s' (Passes s' (Shorter s'))) :
    Proceeds (Parser.repeated a pass) (Parser.repeated a pass') s (Shorter s) := by
  refine repeated fun a s' hle => (h a s' hle).mono fun r t _ hr => ?_
  cases r with
  | again a => exact hr
  | done b => exact Nat.lt_of_lt_of_le hr hle

end Proceeds

variable {p q : Parser α}

/-! ### Names -/

theorem proceeds_datasetRef : Proceeds datasetRef datasetRef s (Shorter s) := by
  refine .expectName fun first hlt => .accept (by simp) (fun hlt' => ?_) fun _ => .pure hlt
  exact .expectName fun name hlt'' => .pure (by omega)

theorem proceeds_nameOrRange : Proceeds nameOrRange nameOrRange s (Shorter s) := by
  refine .expectName fun first hlt => .look (out_check _) (.look out_peekNext ?_)
  split
  · refine .advance (.look out_peek (.expectName fun last hlt' => ?_))
    have hle := size_step_le s.step
    split
    · exact .pure (by omega)
    · exact .throw
  · exact .pure hlt

theorem proceeds_listPass {item : α → Parser α} {a : α}
    (h : s.next.kind ≠ .symbol .semicolon → Proceeds (item a) (item a) s (Shorter s)) :
    Proceeds (listPass item a) (listPass item a) s (Passes s fun _ s' => s' = s) := by
  refine .look (out_check _) ?_
  split
  · exact .pure rfl
  · rename_i hk
    exact (h (by simpa using hk)).bind fun a' s' _ hlt => .pure hlt

theorem proceeds_list {item : α → Parser α} {a : α}
    (h : ∀ a s, s.next.kind ≠ .symbol .semicolon → Proceeds (item a) (item a) s (Shorter s)) :
    Proceeds (repeated a (listPass item)) (repeated a (listPass item)) s fun _ _ => True :=
  .loop fun a s' _ => proceeds_listPass (h a s')

theorem proceeds_datasetItem (refs : List DatasetRef) :
    Proceeds (datasetItem refs) (datasetItem refs) s (Shorter s) :=
  proceeds_datasetRef.bind fun _ _ _ hlt => .pure hlt

theorem proceeds_datasetList : Proceeds datasetList datasetList s (Shorter s) := by
  rw [datasetList_eq]
  refine (proceeds_list fun refs s' _ => proceeds_datasetItem refs).bind
    fun refs s₁ hle _ => .expectSemicolon fun hlt => ?_
  split
  · exact .look out_previous .throw
  · exact .pure (by omega)

theorem proceeds_byItem (read : List ByVariable × Bool) :
    Proceeds (byItem read) (byItem read) s (Shorter s) := by
  unfold byItem
  refine .look (out_check _) (.look out_peekNext ?_)
  split
  · rename_i hk
    have hkind : s.next.kind = .keyword .DESCENDING := by
      simpa using (Bool.and_eq_true_iff.mp hk).1
    exact .read (by simp [hkind]) fun hlt => .pure hlt
  · exact .expectName fun name hlt => .pure hlt

theorem proceeds_byList : Proceeds byList byList s (Shorter s) := by
  rw [byList_eq]
  refine (proceeds_list fun read s' _ => proceeds_byItem read).bind
    fun read s₁ hle _ => .expectSemicolon fun hlt => ?_
  split
  · exact .look out_previous .throw
  · exact .pure (by omega)

theorem proceeds_nameItem (names : List String) :
    Proceeds (nameItem names) (nameItem names) s (Shorter s) :=
  proceeds_nameOrRange.bind fun _ _ _ hlt => .pure hlt

theorem proceeds_nameList : Proceeds nameList nameList s (Shorter s) := by
  rw [nameList_eq]
  refine (proceeds_list fun names s' _ => proceeds_nameItem names).bind
    fun names s₁ hle _ => ?_
  exact .expectSemicolon fun hlt => .pure (by omega)

/-! ### Expressions -/

/-- From every state with fewer tokens ahead both parsers do the same and read a token. -/
def Nested (n : Nat) (p q : Parser α) : Prop :=
  ∀ s, s.size < n → Proceeds p q s (Shorter s)

variable {e e' : Parser Expression}

theorem ne_endOfInput_of_closing {k : Token.Kind} {close : Symbol} (h : closing? k = some close) :
    k ≠ .endOfInput := by
  rintro rfl
  cases h

theorem proceeds_subscript (he : Nested s.size e e') :
    Proceeds (subscript e) (subscript e') s (Shorter s) := by
  refine .ready fun heof => .advance ?_
  cases hclose : closing? s.next.kind with
  | none => exact .throw
  | some close =>
    have hlt := size_step_lt heof (ne_endOfInput_of_closing hclose)
    refine (he s.step hlt).bind fun index s₁ _ hlt₁ => ?_
    exact .expectSymbol fun hlt₂ => .pure (by omega)

theorem proceeds_variablePass (names : List String) :
    Proceeds (variablePass names) (variablePass names) s (Passes s (Shorter s)) := by
  refine .accept (by simp) (fun hlt => .pure hlt) fun _ => .expectName fun first hlt => ?_
  refine .accept (by simp) (fun hlt' => ?_) fun _ => .pure hlt
  exact .expectName fun last hlt'' => .pure (show _ < _ by omega)

theorem proceeds_variableList : Proceeds variableList variableList s fun _ _ => True := by
  rw [variableList_eq]
  refine .advance ?_
  exact (Proceeds.loop fun names s' _ => proceeds_variablePass names).bind
    fun names s₁ _ _ => .pure trivial

theorem proceeds_argumentPass (he : Nested (s.size + 1) e e') (args : List Expression) :
    Proceeds (argumentPass e args) (argumentPass e' args) s (Passes s (Shorter s)) := by
  refine (he s (Nat.lt_succ_self _)).bind fun arg s₁ _ hlt => ?_
  refine .accept (by simp) (fun hlt₁ => .pure (show _ < _ by omega)) fun _ => ?_
  exact .expectSymbol fun hlt₁ => .pure (show _ < _ by omega)

theorem Nested.mono {n m : Nat} {p q : Parser α} (h : Nested n p q) (hle : m ≤ n) : Nested m p q :=
  fun s hs => h s (by omega)

theorem Proceeds.atVariableList {f g : Bool → Parser β} {T : β → State → Prop}
    (h : ∀ b, Proceeds (f b) (g b) s T) :
    Proceeds (atVariableList >>= f) (atVariableList >>= g) s T := by
  simp only [Parser.atVariableList, bind_assoc]
  refine .look out_peek ?_
  split
  · simp only [bind_assoc, pure_bind]
    exact .look out_peekNext (h _)
  · exact h false

theorem proceeds_arguments (he : Nested (s.size + 1) e e') :
    Proceeds (arguments e) (arguments e') s fun _ _ => True := by
  rw [arguments_eq, arguments_eq]
  refine .accept (by simp) (fun _ => .pure trivial) fun _ => .atVariableList fun b => ?_
  cases b with
  | true => exact proceeds_variableList
  | false => exact .loop fun args s' hle => proceeds_argumentPass (he.mono (by omega)) args

theorem proceeds_nameSuffix (he : Nested (s.size + 1) e e') (name : String) :
    Proceeds (nameSuffix e name) (nameSuffix e' name) s fun _ _ => True := by
  have hsub : Proceeds (do return Expression.element name (← subscript e))
      (do return Expression.element name (← subscript e')) s fun _ _ => True :=
    (proceeds_subscript (he.mono (Nat.le_succ _))).bind fun _ _ _ _ => .pure trivial
  refine .look out_peek ?_
  split
  · exact hsub
  · exact hsub
  · refine .look (out_isArray name) ?_
    split
    · exact hsub
    · refine .advance ?_
      have hle := size_step_le s
      exact (proceeds_arguments (he.mono (by omega))).bind fun args s₁ _ _ => .pure trivial
  · exact .pure trivial

theorem proceeds_primary (he : Nested s.size e e') :
    Proceeds (primary e) (primary e') s (Shorter s) := by
  refine .look out_peek ?_
  split
  · rename_i hk
    exact .read (by simp [hk]) fun hlt => .pure hlt
  · rename_i hk
    exact .read (by simp [hk]) fun hlt => .pure hlt
  · rename_i hk
    exact .read (by simp [hk]) fun hlt => .pure hlt
  · rename_i hk
    exact .read (by simp [hk]) fun hlt => .pure hlt
  · rename_i hk
    refine .read (by simp [hk]) fun hlt => (he s.step hlt).bind fun inner s₁ _ hlt₁ => ?_
    exact .expectSymbol fun hlt₂ => .pure (by omega)
  · split
    · rename_i name hname
      refine .read (isInner_of_name hname).2 fun hlt => ?_
      exact (proceeds_nameSuffix (he.mono (by omega)) name).mono fun _ s' hle _ => by omega
    · exact .throw

theorem proceeds_unary (he : Nested s.size e e') {n m : Nat} (hn : Ample s n m) :
    Proceeds (unary e n) (unary e' m) s (Shorter s) := by
  induction n generalizing m s with
  | zero =>
    obtain rfl := hn.eq_zero
    exact .throw
  | succ n ih =>
    obtain ⟨m, rfl⟩ := hn.exists_succ
    unfold unary
    refine .look out_peek ?_
    cases hop : unaryOp? s.next.kind with
    | none => exact proceeds_primary he
    | some op =>
      have hk : s.next.kind ≠ .endOfInput := by
        intro hk
        simp [hk, unaryOp?] at hop
      refine .read hk fun hlt => ?_
      refine (ih (he.mono (Nat.le_of_lt hlt)) (hn.of_lt hlt)).bind fun operand s₁ _ hlt₁ => ?_
      exact .pure (by omega)

theorem proceeds_operationPass {d d' : Nat} (k : Nat) (left : Expression)
    (h : ∀ k, Nested s.size (operation d k) (operation d' k)) :
    Proceeds (operationPass d k left) (operationPass d' k left) s
      (Passes s fun _ s' => s' = s) := by
  refine .look out_peek ?_
  cases hop : binaryOp? s.next.kind with
  | none => exact .pure rfl
  | some op =>
    have hk : s.next.kind ≠ .endOfInput := by
      intro hk
      simp [hk, binaryOp?] at hop
    dsimp only
    split
    · exact .pure rfl
    · refine .read hk fun hlt => (h _ s.step hlt).bind fun right s₁ _ hlt₁ => ?_
      exact .pure (show _ < _ by omega)

/-- The depth of nesting does not show as long as it exceeds the count of tokens ahead. -/
theorem proceeds_operation {d d' : Nat} (k : Nat) (hd : Ample s d d') :
    Proceeds (operation d k) (operation d' k) s (Shorter s) := by
  induction d generalizing d' k s with
  | zero =>
    obtain rfl := hd.eq_zero
    exact .throw
  | succ d ih =>
    obtain ⟨d', rfl⟩ := hd.exists_succ
    have hnested {n : Nat} (hn : n ≤ s.size) (k : Nat) :
        Nested n (operation d k) (operation d' k) :=
      fun s' hs' => ih k (hd.of_lt (by omega))
    rw [operation_eq, operation_eq]
    refine .look out_get ((proceeds_unary (hnested (Nat.le_refl _) 1) (.inl rfl)).bind
      fun first s₁ _ hlt => ?_)
    refine (Proceeds.loop fun left s' hle => proceeds_operationPass k left ?_).mono
      fun _ s' hle _ => by omega
    exact hnested (by omega)

theorem proceeds_expression : Proceeds expression expression s (Shorter s) :=
  .look out_get (proceeds_operation 1 (.inl rfl))

end StepLang.Parser
