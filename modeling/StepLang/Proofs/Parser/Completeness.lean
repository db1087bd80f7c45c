import StepLang.Proofs.Parser.StepEnds

/-! # Complete texts

A text that begins with a step counts as complete once a RUN or QUIT and a semicolon are among its
tokens, wherever they stand. A step that the parser closes with them is complete. The other way
round, a step that is complete may go on to the end of input: its RUN can be an operand or a name,
it can have been passed over with a malformed statement, or stand in PROC SQL, which QUIT closes.
-/

namespace StepLang.Parser

variable {s s' : State} {ts us : List Token}

/-! ### Endings among tokens -/

theorem not_isClosing_of_startsStep {k : Token.Kind} (h : k.startsStep = true) :
    isClosing k = false := by
  cases k with
  | keyword k => cases k <;> first | rfl | cases h
  | _ => rfl

theorem hasStepEnd_cons (t : Token) (h : hasStepEnd ts = true) : hasStepEnd (t :: ts) = true := by
  cases ts with
  | nil => cases h
  | cons u rest => rw [hasStepEnd, h, Bool.or_true]

theorem hasStepEnd_append (ts : List Token) (h : hasStepEnd us = true) :
    hasStepEnd (ts ++ us) = true := by
  induction ts with
  | nil => exact h
  | cons t ts ih => exact hasStepEnd_cons t ih

theorem hasStepEnd_iff : hasStepEnd ts = true ↔ ∃ pre u v post, ts = pre ++ u :: v :: post ∧
    isClosing u.kind = true ∧ v.kind = .symbol .semicolon := by
  constructor
  · intro h
    fun_induction hasStepEnd ts with
    | case1 t u rest ih =>
      rcases Bool.or_eq_true_iff.mp h with hhere | hrest
      · obtain ⟨hword, hsemicolon⟩ := Bool.and_eq_true_iff.mp hhere
        exact ⟨[], t, u, rest, rfl, hword, beq_iff_eq.mp hsemicolon⟩
      · obtain ⟨pre, x, y, post, hsplit, hx, hy⟩ := ih hrest
        exact ⟨t :: pre, x, y, post, by rw [hsplit, List.cons_append], hx, hy⟩
    | case2 => cases h
  · rintro ⟨pre, u, v, post, rfl, hu, hv⟩
    refine hasStepEnd_append pre ?_
    have hhere : ((u.kind == .keyword .RUN || u.kind == .keyword .QUIT) &&
        v.kind == .symbol .semicolon) = true := by
      rw [Bool.and_eq_true]
      exact ⟨hu, beq_iff_eq.mpr hv⟩
    rw [hasStepEnd, hhere, Bool.true_or]

theorem endings_append_le (ts us : List Token) : endings us ≤ endings (ts ++ us) := by
  induction ts with
  | nil => exact Nat.le_refl _
  | cons t ts ih => exact Nat.le_trans ih (Nat.le_add_left _ _)

theorem endings_pos {pre post : List Token} {t u v : Token} (ht : t.kind = .symbol .semicolon)
    (hu : isClosing u.kind = true) (hv : v.kind = .symbol .semicolon) :
    0 < endings (pre ++ t :: u :: v :: post) := by
  refine Nat.lt_of_lt_of_le ?_ (endings_append_le pre _)
  have hending : isEnding t (u :: v :: post) = true := by simp [isEnding, ht, hu, hv]
  rw [endings, hending]
  exact Nat.lt_of_lt_of_le Nat.one_pos (Nat.le_add_right _ _)

theorem holdsQuit_append {u v : Token} (ts post : List Token) (hu : u.kind = .keyword .QUIT)
    (hv : v.kind = .symbol .semicolon) : holdsQuit (ts ++ u :: v :: post) = true := by
  induction ts with
  | nil => simp [holdsQuit, hu, hv]
  | cons t ts ih =>
    cases ts with
    | nil => simp [holdsQuit, hu, hv]
    | cons x ts =>
      rw [List.cons_append, List.cons_append, holdsQuit, ← List.cons_append, ih, Bool.or_true]

end StepLang.Parser

namespace StepLang

open StepLang.Parser

variable {source : String} {tokens : List Token} {statements : List Statement} {e : StepEnd}

/-! ### The first step -/

/-- The statements of the step that a program begins with behind semicolons, and how the step ends;
none if it begins with something else or if the step itself is malformed. -/
def firstStep? (tokens : List Token) : Option (List Statement × StepEnd) :=
  let s := (State.start tokens).pastSemicolons
  if s.beginsUnit then (out unitWithEnd s).1.toOption else none

/-- The tokens from the first on that is no semicolon, without ends of input. -/
def significant (tokens : List Token) : List Token :=
  (tokens.filter (·.kind != .endOfInput)).dropWhile isSemicolon

def IsSql (tokens : List Token) : Prop :=
  ∃ t u rest, tokens = t :: u :: rest ∧ t.kind = .keyword .PROC ∧ u.kind = .keyword .SQL

/-- A RUN or QUIT in front of a semicolon stands behind one too, so it is no operand and no name,
and in PROC SQL it is a QUIT. -/
def EndingsStand (tokens : List Token) : Prop :=
  ∀ pre t u v post, tokens = pre ++ t :: u :: v :: post → isClosing u.kind = true →
    v.kind = .symbol .semicolon →
      t.kind = .symbol .semicolon ∧ (IsSql tokens → u.kind = .keyword .QUIT)

/-- A RUN or QUIT is left to close the step: PROC SQL has a QUIT, and in another step more of them
stand between semicolons than errors are reported. -/
structure HasOwnEnd (tokens : List Token) : Prop where
  quit : IsSql (significant tokens) → holdsQuit (significant tokens) = true
  endings : ¬ IsSql (significant tokens) →
    (Program.ofTokens tokens).errors.length < endings (significant tokens)

/-- What the parser finds of the step that a program begins with: the state where it begins, the one
where it ends, and the one behind what ends it. -/
structure Opened (tokens : List Token) (statements : List Statement) (e : StepEnd)
    (s s' s₁ : State) : Prop where
  start : s = (State.start tokens).pastSemicolons
  begins : s.beginsUnit = true
  opens : ∃ r, out openUnit s = (.ok r, s') ∧ ∃ s₂, out finishStep s' = (.ok (), s₂) ∧
    s₁ = { s₂ with errors := s₂.errors ++ r.fault.toList }
  reads : out programStatement s = (.ok statements, s₁)
  ends : e = s'.stepEnd

theorem exists_opened (h : firstStep? tokens = some (statements, e)) :
    ∃ s s' s₁, Opened tokens statements e s s' s₁ := by
  unfold firstStep? at h
  dsimp only at h
  split at h
  · rename_i hbegins
    have hkind : (State.start tokens).pastSemicolons.eof.kind = .endOfInput :=
      State.eof_start tokens
    generalize hout : out unitWithEnd (State.start tokens).pastSemicolons = x at h
    obtain ⟨result, s₁⟩ := x
    cases result with
    | error e => cases h
    | ok pair =>
      cases h
      obtain ⟨r, s', hopen, hend, hclose⟩ := unitWithEnd_eq_ok hout
      obtain ⟨s₂, hfinish, hreported⟩ := closeUnit_eq_ok hclose
      refine ⟨_, s', s₁, rfl, hbegins, ⟨r, hopen, s₂, hfinish, hreported⟩, ?_, hend⟩
      rw [out_programStatement_of_unit hkind hbegins, out_bind_of_ok hopen, hclose]
  · cases h

namespace Opened

variable {s s' s₁ : State}

theorem eof (h : Opened tokens statements e s s' s₁) : s.eof.kind = .endOfInput := by
  rw [h.start]
  exact State.eof_start tokens

theorem ne_nil (h : Opened tokens statements e s s' s₁) : s.ahead ≠ [] := by
  intro hnil
  rcases State.word_of_beginsUnit h.begins with hk | hk
  · rw [State.next, hnil, List.headD_nil, h.eof] at hk
    cases hk
  · rw [State.next, hnil, List.headD_nil, h.eof] at hk
    cases hk

theorem ofTokens (h : Opened tokens statements e s s' s₁) :
    (∃ rest, (Program.ofTokens tokens).statements = statements ++ rest) ∧
      (Program.ofTokens tokens).errors = (out program s₁).2.errors := by
  obtain ⟨hresult, herrors⟩ := out_program_pastSemicolons (State.eof_start tokens)
  rw [← h.start] at hresult herrors
  have hread := out_recover_of_ok h.reads
  obtain ⟨hfirst, hfirstErrors⟩ := out_program_cons h.eof h.ne_nil hread
  obtain ⟨-, heof⟩ := size_recover_lt h.eof h.ne_nil hread
  obtain ⟨rest, hrest⟩ := exists_out_program (heof ▸ h.eof : s₁.eof.kind = .endOfInput)
  constructor
  · refine ⟨rest, ?_⟩
    change (out program (State.start tokens)).1.toOption.getD [] = _
    rw [hresult, hfirst, hrest]
    rfl
  · exact herrors.trans hfirstErrors

/-- Between its begin and its end the step has all it reads, and it spares the endings unless it is
PROC SQL. -/
theorem body (h : Opened tokens statements e s s' s₁) :
    s.beginsSql = true ∧ SqlBody s.step.step s' ∨
      s.beginsSql = false ∧ Moves s s' ∧ s.account ≤ s'.account ∧ s'.atEnd := by
  obtain ⟨r, hopen, -⟩ := h.opens
  cases hsql : s.beginsSql with
  | true =>
    obtain ⟨t, hopen', hbody⟩ := out_openUnit_of_sql h.eof hsql
    rw [hopen] at hopen'
    cases hopen'
    exact .inl ⟨rfl, hbody⟩
  | false =>
    obtain ⟨hmoves, hspared⟩ := spares_openUnit h.begins hsql
    rw [hopen] at hmoves hspared
    exact .inr ⟨rfl, hmoves, hspared⟩

theorem moves (h : Opened tokens statements e s s' s₁) : Moves s s' := by
  rcases h.body with ⟨-, hbody⟩ | ⟨-, hmoves, -⟩
  · exact ((Moves.step s).trans (Moves.step s.step)).trans hbody.moves
  · exact hmoves

theorem ahead_of_endOfInput (h : Opened tokens statements .endOfInput s s' s₁) :
    s'.ahead = [] := by
  rcases h.body with ⟨-, hbody⟩ | ⟨-, -, -, hend⟩
  · rcases hbody.ends with ⟨hnil, -⟩ | ⟨-, hquit⟩
    · exact hnil
    · have hclosing : isClosing s'.next.kind = true := by
        simp [isClosing, beq_iff_eq.mp (Bool.and_eq_true_iff.mp hquit).1]
      have hends := h.ends
      rw [State.stepEnd, if_pos hclosing] at hends
      cases hends
  · exact Parser.ahead_of_endOfInput hend h.ends.symm

theorem errors_of_endOfInput (h : Opened tokens statements .endOfInput s s' s₁) :
    s'.errors.length ≤ (Program.ofTokens tokens).errors.length := by
  have hnil := h.ahead_of_endOfInput
  obtain ⟨r, -, s₂, hfinish, hs₁⟩ := h.opens
  rw [out_finishStep_of_nil (h.moves.eof ▸ h.eof) hnil] at hfinish
  cases hfinish
  rw [h.ofTokens.2, out_program_nil (by rw [hs₁]; exact hnil), hs₁]
  simp

theorem ahead (h : Opened tokens statements e s s' s₁) (hscan : Token.scan source = .ok tokens) :
    s.ahead = significant tokens := by
  obtain ⟨-, init, eof, rfl, heof, -, hinit⟩ := Token.scan_tiles hscan
  have hahead : (State.start (init ++ [eof])).ahead = init := by
    rw [State.ahead_start_append hinit]
    simp [State.start, heof]
  have hfilter : (init ++ [eof]).filter (·.kind != .endOfInput) = init := by
    rw [List.filter_append, List.filter_eq_self.mpr (by simpa using hinit)]
    simp [heof]
  rw [h.start, significant, hfilter]
  simp only [State.pastSemicolons, hahead]

end Opened

theorem isSql_of_beginsSql {s : State} (he : s.eof.kind = .endOfInput) (h : s.beginsSql = true) :
    IsSql s.ahead := by
  obtain ⟨hproc, hsql⟩ := Bool.and_eq_true_iff.mp h
  rw [beq_iff_eq] at hproc hsql
  obtain ⟨rest, hahead⟩ := State.ahead_of_second he (by simp [hsql])
  exact ⟨s.next, s.second, rest, hahead, hproc, hsql⟩

/-- A step other than PROC SQL that goes on to the end of input has passed over its endings with
malformed statements: an error is reported for each of them. -/
theorem endings_le_errors (hscan : Token.scan source = .ok tokens)
    (h : firstStep? tokens = some (statements, .endOfInput)) (hsql : ¬ IsSql (significant tokens)) :
    endings (significant tokens) ≤ (Program.ofTokens tokens).errors.length := by
  obtain ⟨s, s', s₁, h⟩ := exists_opened h
  rw [← h.ahead hscan] at hsql ⊢
  rcases h.body with ⟨hbegins, -⟩ | ⟨-, -, hspared, -⟩
  · exact absurd (isSql_of_beginsSql h.eof hbegins) hsql
  · have hnone : s'.account = s'.errors.length := by
      simp [State.account, h.ahead_of_endOfInput, endings, isEnding]
    have hpaid : endings s.ahead ≤ s.account :=
      Nat.le_trans (Nat.le_add_left _ _) (Nat.le_add_right _ _)
    exact hpaid.trans ((hspared.trans_eq hnone).trans h.errors_of_endOfInput)

/-- PROC SQL that goes on to the end of input has no QUIT. -/
theorem holdsQuit_of_open (hscan : Token.scan source = .ok tokens)
    (h : firstStep? tokens = some (statements, .endOfInput)) (hsql : IsSql (significant tokens)) :
    holdsQuit (significant tokens) = false := by
  obtain ⟨s, s', s₁, h⟩ := exists_opened h
  obtain ⟨t, u, rest, hsplit, ht, hu⟩ := hsql
  rw [hsplit]
  have hahead := (h.ahead hscan).trans hsplit
  rcases h.body with ⟨-, hbody⟩ | ⟨hbegins, -⟩
  · rcases hbody.ends with ⟨-, hnone⟩ | ⟨hne, -⟩
    · simp only [State.step, hahead, List.tail_cons] at hnone
      cases rest with
      | nil => simp [holdsQuit, ht]
      | cons v rest => simp [holdsQuit, ht, hu, hnone]
    · exact absurd h.ahead_of_endOfInput hne
  · simp [State.beginsSql, State.next, State.second, hahead, ht, hu] at hbegins

theorem isComplete_eq (tokens : List Token) : isComplete tokens =
    match significant tokens with
    | [] => false
    | t :: _ =>
      if t.kind.startsStep then hasStepEnd (significant tokens)
      else (significant tokens).any (·.kind == .symbol .semicolon) := rfl

/-- A text that begins with a step is complete if a RUN or QUIT and a semicolon are among its
tokens, those of the step or others. -/
theorem isComplete_of_firstStep (hscan : Token.scan source = .ok tokens)
    (h : firstStep? tokens = some (statements, e)) :
    (∃ t rest, significant tokens = t :: rest ∧ t.kind.startsStep = true) ∧
      isComplete tokens = hasStepEnd (significant tokens) := by
  obtain ⟨s, s', s₁, h⟩ := exists_opened h
  obtain ⟨t, rest, ht⟩ := List.exists_cons_of_ne_nil h.ne_nil
  have hstarts : t.kind.startsStep = true := by
    have hnext := (Bool.and_eq_true_iff.mp h.begins).1
    rwa [State.next, ht] at hnext
  rw [isComplete_eq, ← h.ahead hscan, ht]
  exact ⟨⟨t, rest, rfl, hstarts⟩, if_pos hstarts⟩

theorem hasOwnEnd_of_isComplete (hscan : Token.scan source = .ok tokens)
    (h : firstStep? tokens = some (statements, e)) (hcomplete : isComplete tokens = true)
    (hstand : EndingsStand (significant tokens)) (herrors : (Program.ofTokens tokens).errors = []) :
    HasOwnEnd tokens := by
  obtain ⟨⟨first, others, hfirst, hstarts⟩, hfound⟩ := isComplete_of_firstStep hscan h
  obtain ⟨pre, u, v, post, hsplit, hu, hv⟩ := hasStepEnd_iff.mp (hfound ▸ hcomplete)
  -- the word that begins the step is none that closes one
  obtain ⟨before, t, rfl⟩ : ∃ before t, pre = before ++ [t] := by
    cases pre using List.reverseRecOn with
    | nil =>
      rw [hsplit] at hfirst
      cases hfirst
      rw [not_isClosing_of_startsStep hstarts] at hu
      cases hu
    | append_singleton before t => exact ⟨before, t, rfl⟩
  have hsplit' : significant tokens = before ++ t :: u :: v :: post := by
    rw [hsplit, List.append_assoc, List.singleton_append]
  obtain ⟨ht, hquit⟩ := hstand before t u v post hsplit' hu hv
  refine ⟨fun hsql => ?_, fun _ => ?_⟩
  · rw [hsplit]
    exact holdsQuit_append (before ++ [t]) post (hquit hsql) hv
  · rw [herrors, hsplit']
    exact endings_pos ht hu hv

theorem not_hasOwnEnd_of_open (hscan : Token.scan source = .ok tokens)
    (h : firstStep? tokens = some (statements, .endOfInput)) : ¬ HasOwnEnd tokens := by
  intro hown
  by_cases hsql : IsSql (significant tokens)
  · exact absurd (hown.quit hsql) (by simp [holdsQuit_of_open hscan h hsql])
  · exact absurd (hown.endings hsql) (Nat.not_lt.mpr (endings_le_errors hscan h hsql))

/-- A step that is closed by its RUN or QUIT is complete. -/
theorem isComplete_of_closing (hscan : Token.scan source = .ok tokens)
    (h : firstStep? tokens = some (statements, .closing)) : isComplete tokens = true := by
  obtain ⟨-, hfound⟩ := isComplete_of_firstStep hscan h
  obtain ⟨s, s', s₁, h⟩ := exists_opened h
  obtain ⟨r, -, s₂, hfinish, -⟩ := h.opens
  have hclosing : isClosing s'.next.kind = true := by
    have hends := h.ends
    unfold State.stepEnd at hends
    split at hends
    · assumption
    · split at hends <;> cases hends
  obtain ⟨u, v, rest, hahead, hu, hv⟩ := ahead_of_closing (h.moves.eof ▸ h.eof) hclosing hfinish
  obtain ⟨read, hread, -⟩ := h.moves.read
  rw [hfound, ← h.ahead hscan, hread, hahead]
  exact hasStepEnd_iff.mpr ⟨read, u, v, rest, rfl, hu, hv⟩

/-- How the test of completeness agrees with the parser on a text that begins with a step, which
the parser gives first. If the step is closed by its own RUN or QUIT, the text is complete. If one
is left to close the step, the step does not go on to the end of input. One is left if the text is
complete, no statement is malformed, and RUN and QUIT stand in front of semicolons only as
statements, in PROC SQL only QUIT. -/
theorem complete_step_ends (hscan : Token.scan source = .ok tokens)
    (h : firstStep? tokens = some (statements, e)) :
    (∃ rest, (Program.ofTokens tokens).statements = statements ++ rest) ∧
      (e = .closing → isComplete tokens = true) ∧
      (HasOwnEnd tokens → e ≠ .endOfInput) ∧
      (isComplete tokens = true → EndingsStand (significant tokens) →
        (Program.ofTokens tokens).errors = [] → e ≠ .endOfInput) := by
  have hopen (hown : HasOwnEnd tokens) : e ≠ .endOfInput := by
    rintro rfl
    exact not_hasOwnEnd_of_open hscan h hown
  refine ⟨?_, ?_, hopen, fun hcomplete hstand herrors => ?_⟩
  · obtain ⟨s, s', s₁, hopened⟩ := exists_opened h
    exact hopened.ofTokens.1
  · rintro rfl
    exact isComplete_of_closing hscan h
  · exact hopen (hasOwnEnd_of_isComplete hscan h hcomplete hstand herrors)

/-- The tokens of a step that assigns a variable of the name `run`, and of its RUN. -/
def operandStep : List Token :=
  [⟨.keyword .DATA, "data", ⟨1, 1⟩⟩, ⟨.name "a", "a", ⟨1, 6⟩⟩, ⟨.symbol .semicolon, ";", ⟨1, 7⟩⟩,
    ⟨.name "x", "x", ⟨1, 9⟩⟩, ⟨.symbol .assign, "=", ⟨1, 11⟩⟩, ⟨.keyword .RUN, "run", ⟨1, 13⟩⟩,
    ⟨.symbol .semicolon, ";", ⟨1, 16⟩⟩, ⟨.keyword .RUN, "run", ⟨1, 18⟩⟩,
    ⟨.symbol .semicolon, ";", ⟨1, 21⟩⟩, ⟨.endOfInput, "", ⟨1, 22⟩⟩]

theorem complete_step_ends_operandStep :
    Token.scan "data a; x = run; run;" = .ok operandStep ∧
      firstStep? operandStep =
        some ([.dataStep [.work "a"] [.assign (.ref "x") (.ref "run")]], .closing) ∧
      HasOwnEnd operandStep ∧ isComplete operandStep = true := by
  have hscan : Token.scan "data a; x = run; run;" = .ok operandStep := by decide +kernel
  have hfirst : firstStep? operandStep =
      some ([.dataStep [.work "a"] [.assign (.ref "x") (.ref "run")]], .closing) := rfl
  have hown : HasOwnEnd operandStep := by
    refine ⟨?_, fun _ => by decide +kernel⟩
    rintro ⟨t, u, rest, hsplit, hproc, -⟩
    cases (List.cons.inj hsplit).1
    cases hproc
  exact ⟨hscan, hfirst, hown, (complete_step_ends hscan hfirst).2.1 rfl⟩

/-- Without its RUN the step counts as complete all the same, and goes on to the end of input. -/
theorem operand_completes_open_step : ∃ tokens statements,
    Token.scan "data a; x = run;" = .ok tokens ∧ isComplete tokens = true ∧
      firstStep? tokens = some (statements, .endOfInput) ∧
      Program.ofTokens tokens = ⟨statements, []⟩ := by
  refine ⟨operandStep.take 7 ++ [⟨.endOfInput, "", ⟨1, 17⟩⟩],
    [.dataStep [.work "a"] [.assign (.ref "x") (.ref "run")]], ?_, ?_, rfl, rfl⟩
  · decide +kernel
  · decide +kernel

end StepLang
