import StepLang.Proofs.Parser.Passes

/-! # Reading a step that holds its own data

The tokens of a DATA step with an INPUT statement and data lines are read back to that step. Tokens
that are given are read one after the other, each parser going on where the one before it stopped.
-/

namespace StepLang.Parser

variable {α β : Type} {ts mid rest : List Token} {t u : Token}

/-- From a state with the tokens ahead, the parser gives the result, reports no error and leaves the
rest ahead. -/
def Reads (p : Parser α) (ts : List Token) (a : α) (rest : List Token) : Prop :=
  ∀ s : State, s.ahead = ts → ∃ s', out p s = (.ok a, s') ∧ s'.ahead = rest ∧ s'.errors = s.errors

namespace Reads

theorem pure (a : α) (ts : List Token) : Reads (Pure.pure a) ts a ts :=
  fun s hs => ⟨s, rfl, hs, rfl⟩

theorem bind {p : Parser α} {f : α → Parser β} {a : α} {b : β} (hp : Reads p ts a mid)
    (hf : Reads (f a) mid b rest) : Reads (p >>= f) ts b rest := by
  intro s hs
  obtain ⟨s₁, hout, hmid, herrors⟩ := hp s hs
  obtain ⟨s₂, hout', hrest, herrors'⟩ := hf s₁ hmid
  exact ⟨s₂, (out_bind_of_ok hout).trans hout', hrest, herrors'.trans herrors⟩

theorem get {f : State → Parser β} {b : β} (h : ∀ s : State, s.ahead = ts → Reads (f s) ts b rest) :
    Reads (get >>= f) ts b rest :=
  fun s hs => h s hs s hs

theorem modify {f : State → State} (ha : ∀ s, (f s).ahead = s.ahead)
    (he : ∀ s, (f s).errors = s.errors) : Reads (modify f) ts () ts :=
  fun s hs => ⟨f s, rfl, (ha s).trans hs, he s⟩

theorem peek : Reads peek (t :: ts) t (t :: ts) := by
  intro s hs
  exact ⟨s, by rw [out_peek, State.next, hs, List.headD_cons], hs, rfl⟩

theorem peekNext : Reads peekNext (t :: u :: ts) u (t :: u :: ts) := by
  intro s hs
  exact ⟨s, by rw [out_peekNext, State.second, hs, List.tail_cons, List.headD_cons], hs, rfl⟩

theorem advance : Reads advance (t :: ts) t ts := by
  intro s hs
  refine ⟨s.step, ?_, ?_, rfl⟩
  · rw [out_advance, State.next, hs, List.headD_cons]
  · rw [State.step, hs, List.tail_cons]

theorem atEnd : Reads atEnd ts ts.isEmpty ts := by
  intro s hs
  exact ⟨s, by rw [out_atEnd, hs], hs, rfl⟩

theorem check (k : Token.Kind) : Reads (check k) (t :: ts) (t.kind == k) (t :: ts) := by
  intro s hs
  exact ⟨s, by rw [out_check, State.next, hs, List.headD_cons], hs, rfl⟩

theorem accept {k : Token.Kind} (h : t.kind = k) : Reads (accept k) (t :: ts) true ts := by
  refine (check k).bind ?_
  rw [h, beq_self_eq_true, if_pos rfl]
  exact advance.bind (pure _ _)

theorem accept_ne {k : Token.Kind} (h : t.kind ≠ k) :
    Reads (Parser.accept k) (t :: ts) false (t :: ts) := by
  refine (check k).bind ?_
  rw [beq_eq_false_iff_ne.mpr h, if_neg (by decide)]
  exact pure _ _

theorem expectSemicolon (h : t.kind = .symbol .semicolon) : Reads expectSemicolon (t :: ts) () ts :=
  (accept h).bind (pure _ _)

theorem expectName {name expected : String} (h : t.kind = .name name) :
    Reads (expectName expected) (t :: ts) name ts := by
  refine peek.bind ?_
  simp only [Token.name?, h]
  exact advance.bind (pure _ _)

theorem nextIsAssign (h : u.kind ≠ .symbol .assign) :
    Reads nextIsAssign (t :: u :: ts) false (t :: u :: ts) := by
  refine peekNext.bind ?_
  rw [beq_eq_false_iff_ne.mpr h]
  exact pure _ _

theorem recover {p : Parser α} {a : α} (h : Reads p ts a rest) :
    Reads (recover p) ts (some a) rest := by
  intro s hs
  obtain ⟨s', hout, hrest, herrors⟩ := h s hs
  exact ⟨s', out_recover_of_ok hout, hrest, herrors⟩

theorem again {pass : α → Parser (Pass α β)} {a a' : α} {b : β} {n : Nat}
    (h : Reads (pass a) ts (.again a') mid) (hn : Reads (repeatUpTo pass n a') mid b rest) :
    Reads (repeatUpTo pass (n + 1) a) ts b rest :=
  h.bind hn

theorem done {pass : α → Parser (Pass α β)} {a : α} {b : β} {n : Nat}
    (h : Reads (pass a) ts (.done b) rest) : Reads (repeatUpTo pass (n + 1) a) ts b rest :=
  h.bind (pure _ _)

theorem repeated {pass : α → Parser (Pass α β)} {a : α} {b : β}
    (h : Reads (repeatUpTo pass (ts.length + 1) a) ts b rest) :
    Reads (repeated a pass) ts b rest :=
  get fun s hs => by rwa [hs]

end Reads

/-! ### Fields -/

def fieldKinds (fields : List InputField) : List Token.Kind :=
  fields.flatMap fun f =>
    match f.kind with
    | .numeric => [.name f.name]
    | .character => [.name f.name, .symbol .dollar]

theorem reads_listPass {item : α → Parser α} {a a' : α} (h : t.kind ≠ .symbol .semicolon)
    (hi : Reads (item a) (t :: ts) a' rest) :
    Reads (listPass item a) (t :: ts) (.again a') rest := by
  refine (Reads.check _).bind ?_
  rw [beq_eq_false_iff_ne.mpr h, if_neg (by decide)]
  exact hi.bind (.pure _ _)

theorem reads_listPass_done {item : α → Parser α} (a : α) (h : t.kind = .symbol .semicolon) :
    Reads (listPass item a) (t :: ts) (.done a) (t :: ts) := by
  refine (Reads.check _).bind ?_
  rw [h, beq_self_eq_true, if_pos rfl]
  exact .pure _ _

theorem markCharacter_concat (fields : List InputField) (f : InputField) :
    markCharacter (fields ++ [f]) = some (fields ++ [{ f with kind := .character }]) := by
  induction fields with
  | nil => rfl
  | cons g fields ih =>
    obtain ⟨h, hs, hfields⟩ : ∃ h hs, fields ++ [f] = h :: hs := by
      cases fields with
      | nil => exact ⟨_, _, rfl⟩
      | cons h hs => exact ⟨_, _, rfl⟩
    rw [hfields] at ih
    rw [List.cons_append, hfields, markCharacter, ih]
    · rfl
    · simp

theorem reads_inputItem_name {name : String} (fields : List InputField) (h : t.kind = .name name) :
    Reads (inputItem fields) (t :: ts) (fields ++ [⟨name, .numeric⟩]) ts :=
  (Reads.accept_ne (by simp [h])).bind ((Reads.expectName h).bind (.pure _ _))

theorem reads_inputItem_mark (fields : List InputField) (f : InputField)
    (h : t.kind = .symbol .dollar) :
    Reads (inputItem (fields ++ [f])) (t :: ts) (fields ++ [{ f with kind := .character }]) ts := by
  refine (Reads.accept h).bind ?_
  rw [if_pos rfl, markCharacter_concat]
  exact .pure _ _

theorem reads_fields (fields read : List InputField) {marks : List Token} {n : Nat}
    (hm : marks.map (·.kind) = fieldKinds fields) (ht : t.kind = .symbol .semicolon)
    (hn : marks.length < n) :
    Reads (repeatUpTo (listPass inputItem) n read) (marks ++ t :: ts) (read ++ fields)
      (t :: ts) := by
  induction fields generalizing read marks n with
  | nil =>
    obtain rfl := List.map_eq_nil_iff.mp hm
    obtain ⟨n, rfl⟩ := Nat.exists_eq_succ_of_ne_zero (Nat.ne_of_gt hn)
    rw [List.append_nil]
    exact .done (reads_listPass_done read ht)
  | cons f fields ih =>
    obtain ⟨name, kind⟩ := f
    have hcons : read ++ ⟨name, kind⟩ :: fields = read ++ [⟨name, kind⟩] ++ fields := by simp
    rw [hcons]
    cases kind with
    | numeric =>
      obtain ⟨m, marks, rfl, hk, hm⟩ := List.map_eq_cons_iff.mp hm
      have hpos : 0 < n := Nat.lt_of_le_of_lt (Nat.zero_le _) hn
      obtain ⟨n, rfl⟩ := Nat.exists_eq_succ_of_ne_zero (Nat.ne_of_gt hpos)
      rw [List.length_cons] at hn
      refine .again (reads_listPass (by simp [hk]) (reads_inputItem_name read hk)) ?_
      exact ih _ hm (by omega)
    | character =>
      obtain ⟨m, marks, rfl, hk, hm⟩ := List.map_eq_cons_iff.mp hm
      obtain ⟨d, marks, rfl, hd, hm⟩ := List.map_eq_cons_iff.mp hm
      rw [List.length_cons, List.length_cons] at hn
      obtain ⟨n, rfl⟩ : ∃ k, n = k + 2 := ⟨n - 2, by omega⟩
      refine .again (reads_listPass (by simp [hk]) (reads_inputItem_name read hk)) ?_
      refine .again (reads_listPass (by simp [hd]) (reads_inputItem_mark read _ hd)) ?_
      exact ih _ hm (by omega)

theorem reads_inputStatement (fields : List InputField) {marks : List Token}
    (hm : marks.map (·.kind) = fieldKinds fields) (hu : u.kind = .symbol .semicolon) :
    Reads inputStatement (t :: marks ++ u :: ts) (.input fields) ts := by
  rw [inputStatement_eq]
  refine Reads.advance.bind ?_
  have hn : marks.length < (marks ++ u :: ts).length + 1 := by
    rw [List.length_append]
    omega
  refine (Reads.repeated (reads_fields fields [] hm hu hn)).bind ?_
  exact (Reads.expectSemicolon hu).bind (.pure _ _)

theorem reads_dataLinesStatement {body : String} {semi lines close : Token}
    (hs : semi.kind = .symbol .semicolon) (hl : lines.kind = .dataLines body)
    (hc : close.kind = .symbol .semicolon) :
    Reads dataLinesStatement (t :: semi :: lines :: close :: ts) (.dataLines body) ts := by
  unfold dataLinesStatement
  refine Reads.advance.bind ((Reads.expectSemicolon hs).bind (Reads.advance.bind ?_))
  rw [hl]
  exact (Reads.expectSemicolon hc).bind (.pure _ _)

/-! ### The step -/

theorem reads_atStepBoundary {k : Keyword} (hk : t.kind = .keyword k)
    (hu : u.kind ≠ .symbol .assign) :
    Reads atStepBoundary (t :: u :: ts) (k == .RUN || k == .QUIT || k.startsStep)
      (t :: u :: ts) := by
  unfold atStepBoundary
  refine Reads.peek.bind ?_
  rw [hk]
  refine (Reads.nextIsAssign hu).bind ?_
  rw [Bool.not_false, Bool.and_true]
  exact .pure _ _

theorem reads_nextIsSubscript (name : String) (hu : closing? u.kind = none) :
    Reads (nextIsSubscript name) (t :: u :: ts) false (t :: u :: ts) := by
  unfold nextIsSubscript
  refine Reads.peekNext.bind ?_
  split
  · rename_i hk
    simp [hk, closing?] at hu
  · rename_i hk
    simp [hk, closing?] at hu
  · rename_i hk
    simp [hk, closing?] at hu
  · exact .pure _ _

theorem reads_setting_none {k : Keyword} (hk : t.kind = .keyword k)
    (hs : k = .INPUT ∨ k = .DATALINES) (hu : u.kind ≠ .symbol .assign) :
    Reads setting? (t :: u :: ts) none (t :: u :: ts) := by
  refine (Reads.nextIsAssign hu).bind ?_
  rw [if_neg (by decide)]
  refine Reads.peek.bind ?_
  rw [hk]
  rcases hs with rfl | rfl
  · exact .pure _ _
  · exact .pure _ _

theorem reads_stepStatement {statement : StepStatement} (hu : closing? u.kind = none)
    (hu' : u.kind ≠ .symbol .assign)
    (h : ∀ p, Reads (statementBody p) (t :: u :: ts) statement rest) :
    Reads stepStatement (t :: u :: ts) statement rest := by
  refine Reads.get fun s _ => Reads.peek.bind ?_
  cases t.name? with
  | none => exact h _
  | some name =>
    refine (Reads.nextIsAssign hu').bind ?_
    rw [if_neg (by decide)]
    refine (reads_nextIsSubscript name hu).bind ?_
    rw [if_neg (by decide)]
    exact h _

theorem reads_stepPass {k : Keyword} {statement : StepStatement}
    (read : List Statement × List StepStatement) (hk : t.kind = .keyword k)
    (hs : k = .INPUT ∨ k = .DATALINES) (hu : u.kind ≠ .symbol .assign)
    (h : Reads stepStatement (t :: u :: ts) statement rest) :
    Reads (stepPass read) (t :: u :: ts) (.again (read.1, read.2 ++ [statement])) rest := by
  refine Reads.atEnd.bind ((reads_atStepBoundary hk hu).bind ?_)
  have hopen : (k == .RUN || k == .QUIT || k.startsStep) = false := by
    rcases hs with rfl | rfl <;> rfl
  rw [hopen, if_neg (by simp)]
  refine (reads_setting_none hk hs hu).recover.bind ?_
  refine (Reads.accept_ne (by simp [hk])).bind ?_
  rw [if_neg (by decide)]
  exact h.recover.bind (.pure _ _)

theorem reads_stepPass_done (read : List Statement × List StepStatement)
    (hk : t.kind = .keyword .RUN) (hu : u.kind ≠ .symbol .assign) :
    Reads (stepPass read) (t :: u :: ts) (.done read) (t :: u :: ts) := by
  refine Reads.atEnd.bind ((reads_atStepBoundary hk hu).bind ?_)
  rw [if_pos (by simp)]
  exact .pure _ _

theorem reads_datasetRef {name : String} (ht : t.kind = .name name)
    (hu : u.kind ≠ .symbol .dot) : Reads datasetRef (t :: u :: ts) (.work name) (u :: ts) :=
  (Reads.expectName ht).bind ((Reads.accept_ne hu).bind (.pure _ _))

theorem reads_stepHead {name : String} {semi : Token} (hu : u.kind = .name name)
    (hs : semi.kind = .symbol .semicolon) :
    Reads stepHead (t :: u :: semi :: ts) [.work name] ts := by
  rw [stepHead_eq]
  refine Reads.advance.bind ?_
  have hlist : Reads (repeatUpTo (listPass datasetItem) ((u :: semi :: ts).length + 1) [])
      (u :: semi :: ts) [.work name] (semi :: ts) := by
    refine .again (reads_listPass (by simp [hu]) ?_) (.done (reads_listPass_done _ hs))
    exact (reads_datasetRef hu (by simp [hs])).bind (.pure _ _)
  exact (Reads.repeated hlist).bind ((Reads.expectSemicolon hs).bind (.pure _ _))

theorem endOfInput_not_mem_fieldKinds (fields : List InputField) :
    Token.Kind.endOfInput ∉ fieldKinds fields := by
  intro h
  obtain ⟨⟨name, kind⟩, -, hf⟩ := List.mem_flatMap.mp h
  cases kind <;> simp at hf

theorem exists_cons_of_fieldKinds {fields : List InputField} (hne : fields ≠ [])
    {marks : List Token} (hm : marks.map (·.kind) = fieldKinds fields) :
    ∃ first others name, marks = first :: others ∧ first.kind = .name name := by
  obtain ⟨⟨name, kind⟩, fields, rfl⟩ := List.exists_cons_of_ne_nil hne
  cases kind with
  | numeric =>
    obtain ⟨first, others, rfl, hfirst, -⟩ := List.map_eq_cons_iff.mp hm
    exact ⟨first, others, name, rfl, hfirst⟩
  | character =>
    obtain ⟨first, others, rfl, hfirst, -⟩ := List.map_eq_cons_iff.mp hm
    exact ⟨first, others, name, rfl, hfirst⟩

/-- The tokens of an INPUT statement and of the data lines behind it. -/
def inStreamKinds (fields : List InputField) (body : String) : List Token.Kind :=
  .keyword .INPUT :: fieldKinds fields ++ [.symbol .semicolon, .keyword .DATALINES,
    .symbol .semicolon, .dataLines body, .symbol .semicolon]

theorem reads_stepBody {fields : List InputField} {body : String} {marks : List Token}
    (hne : fields ≠ []) (hm : marks.map (·.kind) = inStreamKinds fields body)
    (ht : t.kind = .keyword .RUN) (hu : u.kind ≠ .symbol .assign) :
    Reads stepBody (marks ++ t :: u :: ts) ([], [.input fields, .dataLines body])
      (t :: u :: ts) := by
  obtain ⟨input, marks, rfl, hinput, hm⟩ := List.map_eq_cons_iff.mp hm
  obtain ⟨names, marks, rfl, hnames, hm⟩ := List.map_eq_append_iff.mp hm
  obtain ⟨semi, marks, rfl, hsemi, hm⟩ := List.map_eq_cons_iff.mp hm
  obtain ⟨data, marks, rfl, hdata, hm⟩ := List.map_eq_cons_iff.mp hm
  obtain ⟨semi', marks, rfl, hsemi', hm⟩ := List.map_eq_cons_iff.mp hm
  obtain ⟨lines, marks, rfl, hlines, hm⟩ := List.map_eq_cons_iff.mp hm
  obtain ⟨close, marks, rfl, hclose, hm⟩ := List.map_eq_cons_iff.mp hm
  obtain rfl := List.map_eq_nil_iff.mp hm
  obtain ⟨first, names, name, rfl, hfirst⟩ := exists_cons_of_fieldKinds hne hnames
  have hread₁ : Reads stepStatement
      (input :: first :: (names ++ semi :: data :: semi' :: lines :: close :: t :: u :: ts))
      (.input fields) (data :: semi' :: lines :: close :: t :: u :: ts) := by
    refine reads_stepStatement (by simp [hfirst, closing?]) (by simp [hfirst]) fun p => ?_
    refine Reads.peek.bind ?_
    rw [hinput]
    exact reads_inputStatement fields hnames hsemi
  have hread₂ : Reads stepStatement (data :: semi' :: lines :: close :: t :: u :: ts)
      (.dataLines body) (t :: u :: ts) := by
    refine reads_stepStatement (by simp [hsemi', closing?]) (by simp [hsemi']) fun p => ?_
    refine Reads.peek.bind ?_
    rw [hdata]
    exact reads_dataLinesStatement hsemi' hlines hclose
  simp only [List.cons_append, List.append_assoc, List.nil_append]
  rw [stepBody_eq]
  refine .repeated (.again (reads_stepPass _ hinput (.inl rfl) (by simp [hfirst]) hread₁) ?_)
  refine .again (reads_stepPass _ hdata (.inr rfl) (by simp [hsemi']) hread₂) ?_
  exact .done (reads_stepPass_done _ ht hu)

theorem reads_finishStep (ht : t.kind = .keyword .RUN) (hu : u.kind = .symbol .semicolon) :
    Reads finishStep (t :: u :: ts) () ts := by
  refine Reads.peek.bind ?_
  rw [ht]
  exact Reads.advance.bind (Reads.expectSemicolon hu)

def inStreamStep (output : String) (fields : List InputField) (body : String) : List Token.Kind :=
  .keyword .DATA :: .name output :: .symbol .semicolon :: (inStreamKinds fields body ++
    [.keyword .RUN, .symbol .semicolon])

theorem reads_dataStep {output body : String} {fields : List InputField} {marks : List Token}
    (hne : fields ≠ []) (hm : marks.map (·.kind) = inStreamStep output fields body) :
    Reads dataStep (marks ++ ts) [.dataStep [.work output] [.input fields, .dataLines body]]
      ts := by
  obtain ⟨data, marks, rfl, -, hm⟩ := List.map_eq_cons_iff.mp hm
  obtain ⟨name, marks, rfl, hname, hm⟩ := List.map_eq_cons_iff.mp hm
  obtain ⟨semi, marks, rfl, hsemi, hm⟩ := List.map_eq_cons_iff.mp hm
  obtain ⟨marks, tail, rfl, hbody, htail⟩ := List.map_eq_append_iff.mp hm
  obtain ⟨run, tail, rfl, hrun, htail⟩ := List.map_eq_cons_iff.mp htail
  obtain ⟨close, tail, rfl, hclose, htail⟩ := List.map_eq_cons_iff.mp htail
  obtain rfl := List.map_eq_nil_iff.mp htail
  simp only [List.cons_append, List.append_assoc, List.nil_append]
  rw [dataStep_eq]
  have hopen : Reads openStep (data :: name :: semi :: (marks ++ run :: close :: ts))
      ⟨[.work output], [], [.input fields, .dataLines body]⟩ (run :: close :: ts) := by
    refine (reads_stepHead hname hsemi).bind (.bind (.modify ?_ ?_) ?_)
    · exact fun _ => rfl
    · exact fun _ => rfl
    · exact (reads_stepBody hne hbody hrun (by simp [hclose])).bind (.pure _ _)
  exact hopen.bind ((reads_finishStep hrun hclose).bind (.pure _ _))

theorem reads_programPass {statements : List Statement} (read : List Statement)
    (h : Reads programStatement (t :: ts) statements rest) :
    Reads (programPass read) (t :: ts) (.again (read ++ statements)) rest :=
  Reads.atEnd.bind (h.recover.bind (.pure _ _))

theorem reads_programPass_done (read : List Statement) :
    Reads (programPass read) [] (.done read) [] :=
  Reads.atEnd.bind (.pure _ _)

theorem reads_program {output body : String} {fields : List InputField} {marks : List Token}
    (hne : fields ≠ []) (hm : marks.map (·.kind) = inStreamStep output fields body) :
    Reads program marks [.dataStep [.work output] [.input fields, .dataLines body]] [] := by
  have hread := @reads_dataStep [] output body fields marks hne hm
  rw [List.append_nil] at hread
  obtain ⟨data, marks, rfl, hdata, hm⟩ := List.map_eq_cons_iff.mp hm
  obtain ⟨name, marks, rfl, hname, hm⟩ := List.map_eq_cons_iff.mp hm
  have hstatement : Reads programStatement (data :: name :: marks)
      [.dataStep [.work output] [.input fields, .dataLines body]] [] := by
    refine (Reads.nextIsAssign (by simp [hname])).bind (Reads.peek.bind ?_)
    rw [hdata]
    exact hread
  rw [program_eq]
  exact .repeated (.again (reads_programPass [] hstatement) (.done (reads_programPass_done _)))

end StepLang.Parser

namespace StepLang

open StepLang.Parser

theorem Program.ofTokens_of_reads {marks : List Token} {eof : Token} {statements : List Statement}
    (hm : ∀ t ∈ marks, t.kind ≠ .endOfInput) (heof : eof.kind = .endOfInput)
    (h : Reads Parser.program marks statements []) :
    Program.ofTokens (marks ++ [eof]) = ⟨statements, []⟩ := by
  have hahead : (State.start (marks ++ [eof])).ahead = marks := by
    rw [State.ahead_start_append hm]
    simp [State.start, heof]
  obtain ⟨s, hout, -, herrors⟩ := h (State.start (marks ++ [eof])) hahead
  change Program.mk ((out Parser.program (State.start (marks ++ [eof]))).1.toOption.getD [])
    (out Parser.program (State.start (marks ++ [eof]))).2.errors = _
  rw [hout]
  exact congrArg (Program.mk _) herrors

theorem Program.ofTokens_inStream {output body : String} {fields : List InputField}
    {tokens : List Token} (hne : fields ≠ [])
    (hm : tokens.map (·.kind) = inStreamStep output fields body ++ [.endOfInput]) :
    Program.ofTokens tokens =
      ⟨[.dataStep [.work output] [.input fields, .dataLines body]], []⟩ := by
  obtain ⟨marks, tail, rfl, hmarks, htail⟩ := List.map_eq_append_iff.mp hm
  obtain ⟨eof, tail, rfl, heof, htail⟩ := List.map_eq_cons_iff.mp htail
  obtain rfl := List.map_eq_nil_iff.mp htail
  have hinner : ∀ t ∈ marks, t.kind ≠ .endOfInput := by
    intro t ht hk
    have hmem : Token.Kind.endOfInput ∈ inStreamStep output fields body := by
      rw [← hmarks, ← hk]
      exact List.mem_map_of_mem ht
    simp [inStreamStep, inStreamKinds, endOfInput_not_mem_fieldKinds] at hmem
  exact ofTokens_of_reads hinner heof (reads_program hne hmarks)

end StepLang
