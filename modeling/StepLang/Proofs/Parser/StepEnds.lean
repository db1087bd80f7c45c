import StepLang.Proofs.Parser.StatementEndings
import StepLang.Proofs.Token.Tiling

/-! # How steps end

A step is closed by its own RUN or QUIT, or it ends where another step begins or at the end of
input. So reading a step is reading up to its end, and then what closes it. Up to its end a step
spares the endings, except for PROC SQL, which goes up to its QUIT.
-/

namespace StepLang.Parser

variable {α : Type} {s s' : State}

/-! ### PROC SQL up to its QUIT -/

def State.atQuit (s : State) : Bool :=
  s.next.kind == .keyword .QUIT && s.second.kind == .symbol .semicolon

def quitPass (_ : Unit) : Parser (Pass Unit Unit) := do
  if (← get).ahead.isEmpty || (← get).atQuit then return .done ()
  else
    let _ ← advance
    return .again ()

def holdsQuit : List Token → Bool
  | t :: u :: rest =>
    (t.kind == .keyword .QUIT && u.kind == .symbol .semicolon) || holdsQuit (u :: rest)
  | _ => false

theorem holdsQuit_step (hs : s.atQuit = false) : holdsQuit s.ahead = holdsQuit s.step.ahead := by
  unfold State.atQuit State.next State.second at hs
  unfold State.step
  cases ha : s.ahead with
  | nil => rfl
  | cons t rest =>
    cases rest with
    | nil => rfl
    | cons u rest =>
      simp only [ha, List.headD_cons, List.tail_cons] at hs
      simp only [holdsQuit, hs, Bool.false_or, List.tail_cons]

theorem out_quitPass (s : State) : out (quitPass ()) s =
    if s.ahead.isEmpty || s.atQuit then (.ok (.done ()), s) else (.ok (.again ()), s.step) := by
  unfold quitPass
  rw [out_bind_of_ok (out_get s), out_bind_of_ok (out_get s)]
  split
  · rfl
  · rw [out_bind_of_ok (out_advance s)]
    rfl

theorem out_sqlPass_nil (h : s.ahead = []) : out (sqlPass ()) s = (.ok (.done ()), s) := by
  unfold sqlPass
  rw [out_bind_of_ok (out_atEnd s), if_pos (by simp [h])]
  rfl

theorem out_sqlPass (h : s.ahead ≠ []) : out (sqlPass ()) s =
    if s.atQuit then (.ok (.done ()), s.step.step) else (.ok (.again ()), s.step) := by
  have hquit : (s.next.kind == .keyword .QUIT && s.step.next.kind == .symbol .semicolon) =
    s.atQuit := rfl
  unfold sqlPass checkSymbol
  rw [out_bind_of_ok (out_atEnd s), if_neg (by simpa using h), out_bind_of_ok (out_advance s),
    out_bind_of_ok (out_check _ _), hquit]
  split
  · rw [out_bind_of_ok (out_advance s.step)]
    rfl
  · rfl

theorem out_finishStep_of_nil (he : s.eof.kind = .endOfInput) (h : s.ahead = []) :
    out finishStep s = (.ok (), s) := by
  have hnext : s.next.kind = .endOfInput := by
    rw [State.next, h]
    exact he
  unfold finishStep
  rw [out_bind_of_ok (out_peek s), hnext]
  rfl

theorem out_finishStep_of_atQuit (h : s.atQuit = true) :
    out finishStep s = (.ok (), s.step.step) := by
  obtain ⟨hquit, hsemicolon⟩ := Bool.and_eq_true_iff.mp h
  have hsecond : (s.step.next.kind == .symbol .semicolon) = true := hsemicolon
  unfold finishStep expectSemicolon expectSymbol
  rw [out_bind_of_ok (out_peek s), beq_iff_eq.mp hquit]
  dsimp only
  rw [out_bind_of_ok (out_advance s), out_bind, out_accept, if_pos hsecond]
  rfl

/-- PROC SQL goes up to its QUIT, or to the end of input if there is none. -/
structure SqlBody (s s' : State) : Prop where
  moves : Moves s s'
  errors : s'.errors = s.errors
  ends : s'.ahead = [] ∧ holdsQuit s.ahead = false ∨ s'.ahead ≠ [] ∧ s'.atQuit = true

theorem SqlBody.step (hs : s.atQuit = false) (h : SqlBody s.step s') : SqlBody s s' where
  moves := (Moves.step s).trans h.moves
  errors := h.errors
  ends := by rw [holdsQuit_step hs]; exact h.ends

theorem out_repeatUpTo_sql {n : Nat} (hn : s.size < n) (he : s.eof.kind = .endOfInput) : ∃ s',
    out (repeatUpTo quitPass n ()) s = (.ok (), s') ∧
      out (repeatUpTo sqlPass n ()) s = out finishStep s' ∧ SqlBody s s' := by
  induction n generalizing s with
  | zero => exact absurd hn (Nat.not_lt_zero _)
  | succ n ih =>
    have hpass := out_quitPass s
    rw [repeatUpTo, repeatUpTo]
    by_cases hend : s.ahead = []
    · rw [if_pos (by simp [hend])] at hpass
      refine ⟨s, out_bind_of_ok hpass, ?_, .refl s, rfl, .inl ⟨hend, by rw [hend]; rfl⟩⟩
      rw [out_bind_of_ok (out_sqlPass_nil hend), out_finishStep_of_nil he hend]
      rfl
    · have hpass' := out_sqlPass hend
      cases hquit : s.atQuit with
      | true =>
        rw [if_pos (by simp [hquit])] at hpass
        rw [if_pos hquit] at hpass'
        refine ⟨s, out_bind_of_ok hpass, ?_, .refl s, rfl, .inr ⟨hend, hquit⟩⟩
        rw [out_bind_of_ok hpass', out_finishStep_of_atQuit hquit]
        rfl
      | false =>
        rw [if_neg (by simp [hend, hquit])] at hpass
        rw [if_neg (by simp [hquit])] at hpass'
        have hlt := size_step_of_pos (s := s) (List.length_pos_iff.mpr hend)
        obtain ⟨s', hbody, hsql, hrest⟩ := ih (s := s.step) (by omega) he
        refine ⟨s', ?_, ?_, hrest.step hquit⟩
        · rw [out_bind_of_ok hpass]
          exact hbody
        · rw [out_bind_of_ok hpass']
          exact hsql

theorem out_skipSql (he : s.eof.kind = .endOfInput) : ∃ s',
    out (repeated () quitPass) s = (.ok (), s') ∧
      out skipSql s = out finishStep s' ∧ SqlBody s s' :=
  out_repeatUpTo_sql (Nat.lt_succ_self _) he

/-! ### Steps up to their ends -/

/-- What a step gives behind its end: its statements, or also an error about the whole of it. -/
structure StepResult where
  statements : List Statement
  fault : Option Error := none

def StepResult.give (r : StepResult) : Parser (List Statement) := do
  if let some e := r.fault then report e
  return r.statements

theorem StepResult.out_give (r : StepResult) (s : State) :
    out r.give s = (.ok r.statements, { s with errors := s.errors ++ r.fault.toList }) := by
  unfold give
  cases r.fault with
  | none =>
    rw [Option.toList_none, List.append_nil]
    rfl
  | some e => rfl

/-- Reads the options and the statements of a procedure up to the end of its step. -/
def openRequest (init : α) (option : α → Token → Bool → Parser α) (statement : α → Parser α)
    (result : α → List Statement → StepResult) : Parser StepResult := do
  let request ← procedureOptions init option
  let (request, settings) ← repeated (request, []) (procedurePass statement)
  return result request settings

def openUnknown (t : Token) : Parser StepResult := do
  match t.name? with
  | none => throw (unexpected "procedure name" t)
  | some name =>
    skipStep
    return ⟨[.unknownProcedure (Text.upper name)], none⟩

def byProcedure (sort means print freq sql other : α) : Token.Kind → α
  | .keyword .SORT => sort
  | .keyword .MEANS => means
  | .keyword .PRINT => print
  | .keyword .FREQ => freq
  | .keyword .SQL => sql
  | _ => other

def openProcedure : Parser StepResult := do
  let _ ← advance
  let t ← advance
  let pos := (← previous).pos
  byProcedure
    (openRequest {} sortOption sortStatement fun request settings =>
      if request.keys.isEmpty then ⟨settings, some (.malformed .sortWithoutBy pos)⟩
      else ⟨settings ++ [.sort request], none⟩)
    (openRequest {} meansOption meansStatement fun request settings =>
      if request.vars.isEmpty then ⟨settings, some (.malformed .meansWithoutVar pos)⟩
      else ⟨settings ++ [.means request], none⟩)
    (openRequest {} printOption printStatement fun request settings =>
      ⟨settings ++ [.print request], none⟩)
    (openRequest {} freqOption freqStatement fun request settings =>
      ⟨settings ++ [.freq request], none⟩)
    (do
      repeated () quitPass
      return ⟨[.sql], none⟩)
    (openUnknown t) t.kind

def openUnit : Parser StepResult := do
  if ← checkKeyword .DATA then return ⟨(← openStep).statements, none⟩ else openProcedure

def closeUnit (r : StepResult) : Parser (List Statement) := do
  finishStep
  r.give

theorem openRequest_close (init : α) (option : α → Token → Bool → Parser α)
    (statement : α → Parser α) (result : α → List Statement → StepResult) :
    openRequest init option statement result >>= closeUnit = (do
      let request ← procedureOptions init option
      let (request, settings) ← procedureBody request statement
      (result request settings).give) := by
  simp only [openRequest, closeUnit, procedureBody_eq, bind_assoc, pure_bind]

theorem openUnknown_close (t : Token) :
    openUnknown t >>= closeUnit =
      match t.name? with
      | none => throw (unexpected "procedure name" t)
      | some name => do
        skipStep
        finishStep
        return [.unknownProcedure (Text.upper name)] := by
  unfold openUnknown
  split
  · rfl
  · simp only [bind_assoc, pure_bind]
    rfl

theorem procedure_eq : procedure = (do
    let _ ← advance
    let t ← advance
    byProcedure sortProcedure meansProcedure printProcedure freqProcedure
      (do
        skipSql
        return [.sql])
      (openUnknown t >>= closeUnit) t.kind) := by
  simp only [openUnknown_close]
  rfl

theorem out_procedure (he : s.eof.kind = .endOfInput) :
    out procedure s = out (openProcedure >>= closeUnit) s := by
  rw [procedure_eq]
  unfold openProcedure byProcedure
  simp only [bind_assoc]
  rw [out_bind_of_ok (out_advance s), out_bind_of_ok (out_advance s),
    out_bind_of_ok (out_advance s.step), out_bind_of_ok (out_advance s.step),
    out_bind_of_ok (out_previous _)]
  split
  · rw [openRequest_close, sortProcedure_eq, out_bind_of_ok (out_previous _)]
    refine congrArg (out · _) (bind_congr fun request => bind_congr fun read => ?_)
    dsimp only
    split <;> rfl
  · rw [openRequest_close, meansProcedure_eq, out_bind_of_ok (out_previous _)]
    refine congrArg (out · _) (bind_congr fun request => bind_congr fun read => ?_)
    dsimp only
    split <;> rfl
  · rw [openRequest_close, printProcedure_eq]
    rfl
  · rw [openRequest_close, freqProcedure_eq]
    rfl
  · obtain ⟨s', hopen, hsql, -⟩ := out_skipSql (s := s.step.step) he
    rw [bind_assoc, out_bind_of_ok hopen, out_bind, hsql]
    change _ = out (finishStep >>= fun _ => StepResult.give ⟨[.sql], none⟩) s'
    rw [out_bind]
    rfl
  · rfl

theorem spares_openRequest {init : α} {option : α → Token → Bool → Parser α}
    {statement : α → Parser α} {result : α → List Statement → StepResult}
    (hoption : OptionStaysClear option) (hstatement : ∀ a, SparesFromClear (statement a))
    (hs : s.Clear) : Spares (openRequest init option statement result) s fun _ s' => s'.atEnd := by
  refine (spares_procedureOptions hoption s hs).bind fun request s₁ _ => ?_
  refine (Spares.repeated (I := fun _ => True) trivial fun read s _ =>
    spares_procedurePass hstatement read).bind fun read s₂ hend => ?_
  exact .pure hend

theorem spares_openProcedure (hs : s.Clear) (hn : s.next.kind ≠ .symbol .semicolon)
    (hsql : s.second.kind ≠ .keyword .SQL) :
    Spares openProcedure s fun _ s' => s'.atEnd := by
  have hsql' : s.step.next.kind ≠ .keyword .SQL := hsql
  refine .read hs hn fun hs₁ => .advance hs₁ fun hstep => .look out_previous ?_
  dsimp only
  unfold byProcedure
  split <;> rename_i hk
  · exact spares_openRequest optionStaysClear_sort spares_sortStatement (hstep (by simp [hk]))
  · exact spares_openRequest optionStaysClear_means spares_meansStatement (hstep (by simp [hk]))
  · exact spares_openRequest optionStaysClear_print spares_printStatement (hstep (by simp [hk]))
  · exact spares_openRequest optionStaysClear_freq spares_freqStatement (hstep (by simp [hk]))
  · exact absurd hk hsql'
  · unfold openUnknown
    split
    · exact .throw
    · exact spares_skipStep.bind fun _ _ hend => .pure hend

/-! ### The first step -/

/-- A step begins, and not an assignment to a variable of that name. -/
def State.beginsUnit (s : State) : Bool :=
  s.next.kind.startsStep && !(s.second.kind == .symbol .assign)

def State.beginsSql (s : State) : Bool :=
  s.next.kind == .keyword .PROC && s.second.kind == .keyword .SQL

theorem State.word_of_beginsUnit (h : s.beginsUnit = true) :
    s.next.kind = .keyword .DATA ∨ s.next.kind = .keyword .PROC := by
  have hstarts := (Bool.and_eq_true_iff.mp h).1
  cases hk : s.next.kind with
  | keyword k =>
    rw [hk] at hstarts
    cases k <;> simp_all [Token.Kind.startsStep, Keyword.startsStep]
  | _ =>
    rw [hk] at hstarts
    cases hstarts

theorem spares_openUnit (h : s.beginsUnit = true) (hsql : s.beginsSql = false) :
    Spares openUnit s fun _ s' => s'.atEnd := by
  have hs : s.Clear := by
    refine State.clear_of_next ?_
    rcases State.word_of_beginsUnit h with hk | hk <;> simp [hk, isClosing]
  have hn : s.next.kind ≠ .symbol .semicolon := by
    rcases State.word_of_beginsUnit h with hk | hk <;> simp [hk]
  refine .look (out_check _) ?_
  split
  · exact (spares_openStep hs hn).bind fun _ _ hend => .pure hend
  · rename_i hdata
    have hproc := (State.word_of_beginsUnit h).resolve_left (by simpa using hdata)
    exact spares_openProcedure hs hn (by simpa [State.beginsSql, hproc] using hsql)

theorem out_openUnit_of_sql (he : s.eof.kind = .endOfInput) (h : s.beginsSql = true) :
    ∃ s', out openUnit s = (.ok ⟨[.sql], none⟩, s') ∧ SqlBody s.step.step s' := by
  obtain ⟨hproc, hsql⟩ := Bool.and_eq_true_iff.mp h
  have hsql' : s.step.next.kind = .keyword .SQL := beq_iff_eq.mp hsql
  obtain ⟨s', hbody, -, hrest⟩ := out_skipSql (s := s.step.step) he
  refine ⟨s', ?_, hrest⟩
  unfold openUnit checkKeyword openProcedure
  rw [out_bind_of_ok (out_check _ s), if_neg (by simp [beq_iff_eq.mp hproc]),
    out_bind_of_ok (out_advance s), out_bind_of_ok (out_advance s.step),
    out_bind_of_ok (out_previous _), hsql']
  dsimp only [byProcedure]
  rw [out_bind_of_ok hbody]
  rfl

/-- How a step ends: by its own RUN or QUIT, where another step begins, or at the end of input. -/
inductive StepEnd where
  | closing
  | nextStep
  | endOfInput
  deriving DecidableEq, Repr

def State.stepEnd (s : State) : StepEnd :=
  if isClosing s.next.kind then .closing
  else if s.next.kind.startsStep then .nextStep
  else .endOfInput

def unitWithEnd : Parser (List Statement × StepEnd) := do
  let r ← openUnit
  let s ← get
  return (← closeUnit r, s.stepEnd)

theorem out_programStatement_of_unit (he : s.eof.kind = .endOfInput) (h : s.beginsUnit = true) :
    out programStatement s = out (openUnit >>= closeUnit) s := by
  have hassign : out nextIsAssign s = (.ok false, s) := by
    have hsecond : (s.second.kind == .symbol .assign) = false := by
      simpa using (Bool.and_eq_true_iff.mp h).2
    rw [out_nextIsAssign, hsecond]
  unfold programStatement openUnit checkKeyword
  rw [out_bind_of_ok hassign, out_bind_of_ok (out_peek s), bind_assoc,
    out_bind_of_ok (out_check _ s)]
  rcases State.word_of_beginsUnit h with hk | hk
  · rw [hk, dataStep_eq]
    simp only [beq_self_eq_true, if_true, bind_assoc, pure_bind]
    rfl
  · rw [hk]
    exact out_procedure he

theorem out_bind_eq_ok {β : Type} {p : Parser α} {f : α → Parser β} {b : β}
    (h : out (p >>= f) s = (.ok b, s')) :
    ∃ a s₁, out p s = (.ok a, s₁) ∧ out (f a) s₁ = (.ok b, s') := by
  rw [out_bind] at h
  split at h
  · exact ⟨_, _, ‹_›, h⟩
  · cases h

theorem unitWithEnd_eq_ok {statements : List Statement} {e : StepEnd} {s₁ : State}
    (h : out unitWithEnd s = (.ok (statements, e), s₁)) : ∃ r s', out openUnit s = (.ok r, s') ∧
      e = s'.stepEnd ∧ out (closeUnit r) s' = (.ok statements, s₁) := by
  obtain ⟨r, s', hopen, h⟩ := out_bind_eq_ok h
  rw [out_bind_of_ok (out_get s')] at h
  obtain ⟨statements', s₂, hclose, h⟩ := out_bind_eq_ok h
  cases h
  exact ⟨r, s', hopen, rfl, hclose⟩

theorem closeUnit_eq_ok {r : StepResult} {statements : List Statement} {s₁ : State}
    (h : out (closeUnit r) s = (.ok statements, s₁)) : ∃ s', out finishStep s = (.ok (), s') ∧
      s₁ = { s' with errors := s'.errors ++ r.fault.toList } := by
  obtain ⟨⟨⟩, s', hfinish, h⟩ := out_bind_eq_ok h
  rw [r.out_give] at h
  cases h
  exact ⟨s', hfinish, rfl⟩

theorem State.ahead_of_second (he : s.eof.kind = .endOfInput) (h : s.second.kind ≠ .endOfInput) :
    ∃ rest, s.ahead = s.next :: s.second :: rest := by
  unfold State.next
  unfold State.second at h ⊢
  cases hs : s.ahead with
  | nil =>
    rw [hs, List.tail_nil, List.headD_nil] at h
    exact absurd he h
  | cons t others =>
    cases others with
    | nil =>
      rw [hs, List.tail_cons, List.headD_nil] at h
      exact absurd he h
    | cons u rest => exact ⟨rest, rfl⟩

theorem next_of_expectSemicolon (h : out expectSemicolon s = (.ok (), s')) :
    s.next.kind = .symbol .semicolon := by
  unfold expectSemicolon expectSymbol at h
  rw [out_bind, out_accept] at h
  by_cases hk : s.next.kind = .symbol .semicolon
  · exact hk
  · rw [if_neg (by simpa using hk)] at h
    cases h

theorem ahead_of_closing (he : s.eof.kind = .endOfInput) (hk : isClosing s.next.kind = true)
    (h : out finishStep s = (.ok (), s')) : ∃ u v rest, s.ahead = u :: v :: rest ∧
      isClosing u.kind = true ∧ v.kind = .symbol .semicolon := by
  have hsemicolon : s.second.kind = .symbol .semicolon := by
    unfold finishStep at h
    rw [out_bind_of_ok (out_peek s)] at h
    rcases (by simpa [isClosing] using hk : s.next.kind = _ ∨ s.next.kind = _) with hword | hword
    · rw [hword, out_bind_of_ok (out_advance s)] at h
      exact next_of_expectSemicolon h
    · rw [hword, out_bind_of_ok (out_advance s)] at h
      exact next_of_expectSemicolon h
  obtain ⟨rest, hahead⟩ := State.ahead_of_second he (by simp [hsemicolon])
  exact ⟨s.next, s.second, rest, hahead, hk, hsemicolon⟩

theorem ahead_of_endOfInput (hend : s.atEnd) (h : s.stepEnd = .endOfInput) : s.ahead = [] := by
  rcases Bool.or_eq_true_iff.mp hend with hnil | hboundary
  · simpa using hnil
  · unfold State.isBoundary at hboundary
    unfold State.stepEnd at h
    split at hboundary
    · rename_i k hk
      rw [hk] at h
      cases k <;> simp_all [isClosing, Token.Kind.startsStep, Keyword.startsStep]
    · cases hboundary

/-! ### Semicolons in front -/

def isSemicolon (t : Token) : Bool := t.kind == .symbol .semicolon

def State.pastSemicolons (s : State) : State :=
  { s with
    ahead := s.ahead.dropWhile isSemicolon
    last := (s.ahead.takeWhile isSemicolon).getLastD s.last }

theorem State.pastSemicolons_step {t : Token} {rest : List Token} (hs : s.ahead = t :: rest)
    (ht : isSemicolon t = true) : s.step.pastSemicolons = s.pastSemicolons := by
  simp only [pastSemicolons, step, hs, List.tail_cons, List.headD_cons, List.dropWhile_cons,
    List.takeWhile_cons, ht, if_true, List.getLastD_cons]

theorem State.pastSemicolons_of_not (h : ∀ t ∈ s.ahead.head?, isSemicolon t = false) :
    s.pastSemicolons = s := by
  obtain ⟨ahead, eof, last, errors, arrays⟩ := s
  cases ahead with
  | nil => rfl
  | cons t rest =>
    have ht : isSemicolon t = false := h t rfl
    simp [pastSemicolons, ht]

theorem out_programStatement_of_semicolon (h : s.next.kind = .symbol .semicolon) :
    out programStatement s = (.ok [], s.step) := by
  unfold programStatement
  rw [out_bind_of_ok (out_nextIsAssign s), out_bind_of_ok (out_peek s), h]
  exact out_bind_of_ok (out_advance s)

theorem out_program_pastSemicolons (he : s.eof.kind = .endOfInput) :
    (out program s).1 = (out program s.pastSemicolons).1 ∧
      (out program s).2.errors = (out program s.pastSemicolons).2.errors := by
  induction hn : s.size generalizing s with
  | zero =>
    have hnil : s.ahead = [] := List.length_eq_zero_iff.mp hn
    rw [State.pastSemicolons_of_not (by simp [hnil])]
    exact ⟨rfl, rfl⟩
  | succ n ih =>
    obtain ⟨t, rest, hs⟩ := List.exists_cons_of_length_eq_add_one hn
    cases ht : isSemicolon t with
    | false =>
      rw [State.pastSemicolons_of_not (by simp [hs, ht])]
      exact ⟨rfl, rfl⟩
    | true =>
      have hnext : s.next.kind = .symbol .semicolon := by
        rw [State.next, hs]
        exact beq_iff_eq.mp ht
      have hlt : s.step.size = n := by simpa [State.size, State.step, hs] using hn
      obtain ⟨hresult, herrors⟩ := out_program_cons he (by simp [hs])
        (out_recover_of_ok (out_programStatement_of_semicolon hnext))
      obtain ⟨hresult', herrors'⟩ := ih (s := s.step) he hlt
      rw [State.pastSemicolons_step hs ht] at hresult' herrors'
      rw [hresult, herrors, hresult', herrors']
      refine ⟨?_, rfl⟩
      cases (out program s.pastSemicolons).1 <;> rfl

end StepLang.Parser
