import StepLang.Proofs.Parser.Endings

/-! # Endings behind statements, procedures and steps

Where a statement begins no ending is next, since a step ends there. So no statement, no setting and
no step reads an ending, but for PROC SQL, and a malformed statement that is passed over takes at
most one.
-/

namespace StepLang.Parser

variable {α β : Type} {s : State} {p : Parser StepStatement}

/-! ### Statements of a DATA step -/

theorem State.clear_of_not_end (h : ¬ (s.ahead.isEmpty || s.isBoundary) = true) : s.Clear :=
  Bool.eq_false_iff.mpr fun hs => h (by rw [isBoundary_of_atEnding hs, Bool.or_true])

theorem spares_assignment : SparesFromClear assignment := by
  refine fun s hs => .expectName hs fun name hs₁ => .expectSymbol (by simp) fun hs₂ => ?_
  refine (staysClear_expression _ hs₂).bind fun value s₃ _ => ?_
  exact .expectSemicolon (.pure trivial)

theorem spares_elementAssignment : SparesFromClear elementAssignment := by
  refine fun s hs => .expectName hs fun array hs₁ => ?_
  refine (staysClear_subscript staysClear_expression _ hs₁).bind fun index s₂ _ => ?_
  refine .expectSymbol (by simp) fun hs₃ => ?_
  refine (staysClear_expression _ hs₃).bind fun value s₄ _ => ?_
  exact .expectSemicolon (.pure trivial)

theorem spares_alternative (hp : SparesFromClear p) (n : Nat) (s : State) :
    Spares (alternative p n) s fun _ _ => True := by
  induction n generalizing s with
  | zero => exact .throw
  | succ n ih =>
    unfold alternative
    -- at an ending neither word is next, and nothing is read
    refine .acceptKeyword (by simp [isClosing]) (fun hs₁ => ?_) fun _ =>
      .acceptKeyword (by simp [isClosing]) (fun hs₁ => ?_) fun _ => .pure trivial
    · refine (staysClear_expression _ hs₁).bind fun condition s₂ _ => ?_
      refine .expectKeyword (by simp [isClosing]) fun hs₃ => ?_
      refine (hp _ hs₃).bind fun consequence s₄ _ => ?_
      exact (ih s₄).bind fun _ _ _ => .pure trivial
    · exact (hp _ hs₁).bind fun _ _ _ => .pure trivial

theorem spares_ifStatement (hp : SparesFromClear p) : SparesFromWord (ifStatement p) := by
  refine fun s hs hn => .read hs hn fun hs₁ => ?_
  refine (staysClear_expression _ hs₁).bind fun condition s₂ _ => ?_
  refine .acceptSemicolon (.pure trivial) fun _ => ?_
  refine .expectKeyword (by simp [isClosing]) fun hs₃ => ?_
  refine (hp _ hs₃).bind fun consequence s₄ _ => .look out_get ?_
  exact (spares_alternative hp _ s₄).bind fun _ _ _ => .pure trivial

theorem spares_doBody (hp : SparesFromClear p) (s : State) :
    Spares (doBody p) s fun _ _ => True := by
  refine .repeated (I := fun _ => True) trivial fun body s _ => ?_
  refine .acceptKeyword (by simp [isClosing]) (fun _ => ?_) fun _ => ?_
  · exact .expectSemicolon (.pure trivial)
  refine .look out_atEnd (.look out_atStepBoundary ?_)
  split
  · exact .look out_peek .throw
  · rename_i hend
    refine .acceptSemicolon (.pure trivial) fun _ => ?_
    refine (hp s (State.clear_of_not_end hend)).recover.bind fun r s₁ _ => ?_
    cases r with
    | none => exact .pure trivial
    | some statement => exact .pure trivial

theorem spares_conditionLoop {test : Expression → LoopTest} (hp : SparesFromClear p) :
    SparesFromWord (conditionLoop p test) := by
  refine fun s hs hn => .read hs hn fun _ => .expectSymbol (by simp) fun hs₂ => ?_
  refine (staysClear_expression _ hs₂).bind fun condition s₃ _ => ?_
  refine .expectSymbol (by simp) fun _ => .expectSemicolon ?_
  exact (spares_doBody hp _).bind fun body s₆ _ => .pure trivial

theorem spares_rangeLoop (hp : SparesFromClear p) : SparesFromClear (rangeLoop p) := by
  refine fun s hs => .expectName hs fun index hs₁ => .expectSymbol (by simp) fun hs₂ => ?_
  refine (staysClear_expression _ hs₂).bind fun start s₃ _ => ?_
  refine .expectKeyword (by simp [isClosing]) fun hs₄ => ?_
  refine (staysClear_expression _ hs₄).bind fun stop s₅ _ => ?_
  have hrest (increment : Option Expression) (s : State) :
      Spares (do
        expectSemicolon
        return StepStatement.iterate index start stop increment (← doBody p)) s fun _ _ => True :=
    .expectSemicolon ((spares_doBody hp _).bind fun body s₇ _ => .pure trivial)
  refine .acceptKeyword (by simp [isClosing]) (fun hs₆ => ?_) fun _ => hrest none s₅
  simp only [if_true, map_eq_pure_bind, bind_assoc, pure_bind]
  exact (staysClear_expression _ hs₆).bind fun increment s₇ _ => hrest (some increment) s₇

theorem spares_doStatement (hp : SparesFromClear p) : SparesFromWord (doStatement p) := by
  refine fun s hs hn => .read hs hn fun hs₁ => .acceptSemicolon ?_ fun _ => .look out_peek ?_
  · exact (spares_doBody hp _).bind fun body s₂ _ => .pure trivial
  split
  · rename_i hk
    exact spares_conditionLoop hp _ hs₁ (by simp [hk])
  · rename_i hk
    exact spares_conditionLoop hp _ hs₁ (by simp [hk])
  · exact spares_rangeLoop hp _ hs₁

theorem staysClear_arraySize : StaysClear arraySize := by
  refine fun s hs => .acceptSymbol (by simp) (fun hs₁ => .pure hs₁) fun _ =>
    .advance hs fun hstep => ?_
  split
  · rename_i hk
    split
    · exact .pure (hstep (by simp [hk]))
    · exact .throw
  · exact .throw

theorem staysClear_elementKind : StaysClear elementKind := by
  refine fun s hs => .acceptSymbol (by simp) (fun hs₁ => .look out_peek ?_) fun _ => .pure hs
  split
  · rename_i hk
    exact .read hs₁ (by simp [hk]) fun hs₂ => .pure hs₂
  · exact .pure hs₁

theorem spares_liftExcept {r : Except Error α} :
    Spares (arrayStatement.liftExcept r) s fun _ _ => True := by
  cases r with
  | ok a => exact .pure trivial
  | error e => exact .throw

theorem spares_arrayStatement : SparesFromWord arrayStatement := by
  refine fun s hs hn => .read hs hn fun hs₁ => .expectName hs₁ fun name hs₂ => ?_
  refine .advance hs₂ fun hstep => ?_
  split
  · exact .look out_previous .throw
  · rename_i close hclose
    have hs₃ := hstep (ne_semicolon_of_closing hclose)
    refine (staysClear_arraySize _ hs₃).bind fun size s₄ _ => ?_
    refine .expectSymbol (closing_ne_semicolon hclose) fun hs₄ => ?_
    refine (staysClear_elementKind _ hs₄).bind fun kind s₅ hs₅ => ?_
    refine (spares_nameList _ hs₅).bind fun names s₆ _ => ?_
    exact spares_liftExcept.bind fun vars s₇ _ => .modify ⟨⟨[], rfl, rfl⟩, rfl⟩ rfl (.pure trivial)

theorem staysClear_literal : StaysClear literal? := by
  refine fun s hs => .look out_peek ?_
  split
  · rename_i hk
    exact .read hs (by simp [hk]) fun hs₁ => .pure hs₁
  · rename_i hk
    exact .read hs (by simp [hk]) fun hs₁ => .pure hs₁
  · rename_i hk
    exact .read hs (by simp [hk]) fun hs₁ => .pure hs₁
  · rename_i hk
    refine .look out_peekNext ?_
    split
    · rename_i x hx
      have hnumber : s.step.next.kind = .number x := hx
      refine .read hs (by simp [hk]) fun hs₁ => ?_
      exact .read hs₁ (by simp [hnumber]) fun hs₂ => .pure hs₂
    · exact .throw
  · exact .pure hs

theorem staysClear_retainItem (read : List RetainItem × List RetainItem) :
    StaysClear (retainItem read) := by
  refine fun s hs => (staysClear_literal s hs).bind fun r s₁ hs₁ => ?_
  cases r with
  | some initial => exact .pure hs₁
  | none => exact (staysClear_nameOrRange s₁ hs₁).bind fun names s₂ hs₂ => .pure hs₂

theorem staysClear_lengthItem (read : List LengthItem × List String) :
    StaysClear (lengthItem read) := by
  refine fun s hs => .acceptOrNot (by simp) hs fun character s₁ hs₁ => .look out_peek ?_
  split
  · rename_i hk
    refine .read hs₁ (by simp [hk]) fun hs₂ => ?_
    split
    · exact .throw
    · split
      · exact .throw
      · exact .pure hs₂
  · exact (staysClear_nameOrRange s₁ hs₁).bind fun names s₂ hs₂ => .pure hs₂

theorem staysClear_inputItem (fields : List InputField) : StaysClear (inputItem fields) := by
  refine fun s hs => .acceptSymbol (by simp) (fun hs₁ => ?_) fun _ =>
    .expectName hs fun name hs₁ => .pure hs₁
  cases markCharacter fields with
  | some marked => exact .pure hs₁
  | none => exact .look out_previous .throw

theorem spares_keywordStatement {rest : Parser StepStatement} (h : SparesFromClear rest) :
    SparesFromWord (keywordStatement rest) :=
  fun _ hs hn => .read hs hn fun hs₁ => h _ hs₁

theorem spares_retainStatement : SparesFromWord retainStatement := by
  rw [retainStatement_eq]
  refine fun s hs hn => .read hs hn fun hs₁ => (staysClear_items staysClear_retainItem _ hs₁).bind
    fun read s₂ _ => ?_
  exact .expectSemicolon (.pure trivial)

theorem spares_lengthStatement : SparesFromWord lengthStatement := by
  rw [lengthStatement_eq]
  refine fun s hs hn => .read hs hn fun hs₁ => (staysClear_items staysClear_lengthItem _ hs₁).bind
    fun read s₂ _ => ?_
  dsimp only
  split
  · exact .expectSemicolon (.pure trivial)
  · exact .look out_peek .throw

theorem spares_inputStatement : SparesFromWord inputStatement := by
  rw [inputStatement_eq]
  refine fun s hs hn => .read hs hn fun hs₁ => (staysClear_items staysClear_inputItem _ hs₁).bind
    fun fields s₂ _ => ?_
  exact .expectSemicolon (.pure trivial)

/-- Without data lines the statement fails, perhaps at the token of an ending. -/
theorem spares_dataLinesStatement : SparesFromWord dataLinesStatement := by
  refine fun s hs hn => .read hs hn fun _ => .expectSemicolon ?_
  generalize s.step.step = s₂
  by_cases hk : ∃ body, s₂.next.kind = .dataLines body
  · obtain ⟨body, hk⟩ := hk
    refine .advance (State.clear_of_next (by simp [hk, isClosing])) fun _ => ?_
    rw [hk]
    exact .expectSemicolon (.pure trivial)
  · refine .advance_throw (e := unexpected "data lines" s₂.next) ?_
    split
    · rename_i body hbody
      exact absurd ⟨body, hbody⟩ hk
    · rfl

theorem spares_statementBody (hp : SparesFromClear p) : SparesFromClear (statementBody p) := by
  intro s hs
  refine .look out_peek ?_
  split <;> rename_i hk
  · exact .advance hs fun _ => .pure trivial
  · exact spares_keywordStatement (spares_datasetList.map _) s hs (by simp [hk])
  · exact spares_keywordStatement (spares_datasetList.map _) s hs (by simp [hk])
  · exact spares_keywordStatement (spares_byList.map _) s hs (by simp [hk])
  · exact spares_ifStatement hp _ hs (by simp [hk])
  · exact spares_doStatement hp _ hs (by simp [hk])
  · exact spares_arrayStatement _ hs (by simp [hk])
  · exact spares_keywordStatement (spares_nameList.map _) s hs (by simp [hk])
  · exact spares_keywordStatement (spares_nameList.map _) s hs (by simp [hk])
  · exact spares_retainStatement _ hs (by simp [hk])
  · exact spares_lengthStatement _ hs (by simp [hk])
  · exact spares_inputStatement _ hs (by simp [hk])
  · exact spares_dataLinesStatement _ hs (by simp [hk])
  · exact spares_keywordStatement (spares_nameList.map _) s hs (by simp [hk])
  · exact .read hs (by simp [hk]) fun _ => .expectSemicolon (.pure trivial)
  · exact .read hs (by simp [hk]) fun _ => .expectSemicolon (.pure trivial)
  · exact .throw
  · exact .throw

theorem Spares.nextIsSubscript {name : String} {f : Bool → Parser β} {T : β → State → Prop}
    (h : ∀ b, Spares (f b) s T) : Spares (nextIsSubscript name >>= f) s T := by
  simp only [Parser.nextIsSubscript, bind_assoc]
  refine .look out_peekNext ?_
  split
  · exact h true
  · exact h true
  · exact .look (out_isArray name) (h _)
  · exact h false

theorem spares_statementUpTo (depth : Nat) : SparesFromClear (statementUpTo depth) := by
  induction depth with
  | zero => exact fun s _ => .throw
  | succ depth ih =>
    refine fun s hs => .look out_peek ?_
    split
    · refine .look out_nextIsAssign ?_
      split
      · exact spares_assignment s hs
      · refine .nextIsSubscript fun b => ?_
        cases b with
        | true => exact spares_elementAssignment s hs
        | false => exact spares_statementBody ih s hs
    · exact spares_statementBody ih s hs

theorem spares_stepStatement : SparesFromClear stepStatement :=
  fun s hs => .look out_get (spares_statementUpTo _ s hs)

/-! ### Settings -/

theorem staysClear_optionValue : StaysClear optionValue := by
  refine fun s hs => .advance hs fun hstep => ?_
  split
  · rename_i hk
    exact .pure (hstep (by simp [hk]))
  · rename_i hk
    exact .pure (hstep (by simp [hk]))
  · split
    · rename_i name hname
      exact .pure (hstep (isInner_of_name hname).1)
    · exact .throw

theorem staysClear_optionItem (settings : List (String × String)) :
    StaysClear (optionItem settings) := by
  refine fun s hs => .expectName hs fun name hs₁ => ?_
  refine .acceptSymbol (by simp) (fun hs₂ => ?_) fun _ => .pure hs₁
  exact (staysClear_optionValue _ hs₂).bind fun value s₃ hs₃ => .pure hs₃

theorem spares_optionsStatement : SparesFromWord optionsStatement := by
  rw [optionsStatement_eq]
  refine fun s hs hn => .read hs hn fun hs₁ => (staysClear_items staysClear_optionItem _ hs₁).bind
    fun settings s₂ _ => ?_
  exact .expectSemicolon (.pure trivial)

theorem staysClear_libnameItem (readOnly : Bool) : StaysClear (libnameItem readOnly) := by
  refine fun s hs => .expectName hs fun option hs₁ => .expectSymbol (by simp) fun hs₂ => ?_
  refine (staysClear_optionValue _ hs₂).bind fun value s₃ hs₃ => ?_
  split
  · exact .pure hs₃
  · exact .look out_previous .throw

theorem spares_libnameStatement : SparesFromWord libnameStatement := by
  have hclose (libref : String) (engine : Option String) (path : String) : SparesFromClear (do
      let readOnly ← libnameOptions
      expectSemicolon
      return Statement.libname libref engine path readOnly) := by
    rw [libnameOptions_eq]
    refine fun s hs => (staysClear_items staysClear_libnameItem _ hs).bind fun readOnly s₁ _ => ?_
    exact .expectSemicolon (.pure trivial)
  refine fun s hs hn => .read hs hn fun hs₁ => .expectName hs₁ fun libref hs₂ => .look out_peek ?_
  dsimp only
  split
  · rename_i name hname
    refine .read hs₂ (isInner_of_name hname).1 fun hs₃ => .advance hs₃ fun hstep => ?_
    split
    · rename_i path hk
      exact hclose libref (some (Text.lower name)) path _ (hstep (by simp [hk]))
    · exact .throw
  · refine .advance hs₂ fun hstep => ?_
    split
    · rename_i path hk
      exact hclose libref none path _ (hstep (by simp [hk]))
    · exact .throw

theorem spares_titleStatement : SparesFromWord titleStatement := by
  refine fun s hs hn => .read hs hn fun hs₁ => .look out_peek ?_
  dsimp only
  split
  · exact .advance hs₁ fun _ => .expectSemicolon (.pure trivial)
  · exact .expectSemicolon (.pure trivial)

theorem spares_macroItem (parts : List String) {s : State} (hs : s.Clear)
    (hn : s.next.kind ≠ .symbol .semicolon) :
    Spares (macroItem parts) s fun _ s' => s'.Clear := by
  refine .look out_atEnd ?_
  split
  · exact (Spares.throw (Q := fun _ _ => False)).bind fun _ _ h => h.elim
  · refine .read hs hn fun hs₁ => ?_
    split
    · exact .pure hs₁
    · exact .pure hs₁

theorem spares_macroLetStatement : SparesFromWord macroLetStatement := by
  rw [macroLetStatement_eq]
  refine fun s hs hn => .read hs hn fun hs₁ => .expectName hs₁ fun name hs₂ => ?_
  refine .expectSymbol (by simp) fun hs₃ => ?_
  refine (staysClear_list (fun parts s hs hk => spares_macroItem parts hs hk) _ hs₃).bind
    fun parts s₄ _ => ?_
  exact .expectSemicolon (.pure trivial)

theorem spares_setting {s : State} (hs : s.Clear) :
    Spares setting? s fun r s' => r = none → s' = s := by
  have hsome {p : Parser Statement} (hp : Spares p s fun _ _ => True) :
      Spares (some <$> p) s fun r s' => r = none → s' = s := by
    rw [map_eq_pure_bind]
    exact hp.bind fun a s' _ => .pure (by simp)
  refine .look out_nextIsAssign ?_
  split
  · exact .pure fun _ => rfl
  refine .look out_peek ?_
  split
  · rename_i hk
    exact hsome (spares_optionsStatement _ hs (by simp [hk]))
  · rename_i hk
    exact hsome (spares_libnameStatement _ hs (by simp [hk]))
  · rename_i hk
    exact hsome (spares_titleStatement _ hs (by simp [hk]))
  · rename_i hk
    exact hsome (spares_macroLetStatement _ hs (by simp [hk]))
  · exact .throw
  · exact .pure fun _ => rfl

/-! ### Procedures -/

theorem staysClear_datasetOption : StaysClear datasetOption :=
  fun s hs => .expectSymbol (by simp) fun hs₁ => staysClear_datasetRef _ hs₁

theorem spares_invalidStatement {Q : α → State → Prop} {name : String} :
    Spares (invalidStatement name) s Q :=
  .look out_peek .throw

/-- An option of a procedure that is told of the equals sign behind it stays inside the options. -/
def OptionStaysClear (option : α → Token → Bool → Parser α) : Prop :=
  ∀ a t b s, State.Clear s → (b = true → s.next.kind = .symbol .assign) →
    Spares (option a t b) s fun _ s' => s'.Clear

theorem spares_procedureOptions {init : α} {option : α → Token → Bool → Parser α}
    (h : OptionStaysClear option) : SparesFromClear (procedureOptions init option) := by
  rw [procedureOptions_eq]
  refine fun s hs => (staysClear_list (fun request s hs hn => ?_) s hs).bind
    fun request s₁ _ => .expectSemicolon (.pure trivial)
  refine .read hs hn fun hs₁ => .look (out_check _) ?_
  exact h request s.next _ s.step hs₁ fun hb => by simpa using hb

theorem spares_withDataset {f : DatasetRef → α} (hs : s.Clear) :
    Spares (do return f (← datasetOption)) s fun _ s' => s'.Clear :=
  staysClear_datasetOption.map f s hs

def State.atEnd (s : State) : Prop := (s.ahead.isEmpty || s.isBoundary) = true

/-- A pass over a procedure, also one whose statement was malformed. -/
theorem spares_procedurePass {statement : α → Parser α} (h : ∀ a, SparesFromClear (statement a))
    (read : α × List Statement) : Spares (procedurePass statement read) s
      (Pass.Holds (fun _ _ => True) fun _ s' => s'.atEnd) := by
  refine .look out_atEnd (.look out_atStepBoundary ?_)
  split
  · rename_i hend
    exact .pure hend
  · rename_i hend
    have hs := State.clear_of_not_end hend
    refine .acceptSemicolon (.pure trivial) fun _ => ?_
    have hstatement : Spares (procedureStatement statement read) s fun _ _ => True := by
      refine (spares_setting hs).bind fun r s₁ hnone => ?_
      cases r with
      | some setting => exact .pure trivial
      | none =>
        obtain rfl := hnone rfl
        exact (h _ s₁ hs).bind fun request s₂ _ => .pure trivial
    exact hstatement.recover.bind fun r s₁ _ => .pure trivial

theorem optionStaysClear_sort : OptionStaysClear sortOption := by
  intro request t assigned s hs _
  unfold sortOption
  split
  · exact spares_withDataset hs
  · exact spares_withDataset hs
  · exact .pure hs
  · exact .pure hs
  · exact .pure hs
  · exact .throw

theorem spares_sortStatement (request : SortRequest) : SparesFromClear (sortStatement request) := by
  refine fun s hs => .look out_peek ?_
  split
  · rename_i hk
    exact .read hs (by simp [hk]) fun hs₁ => spares_byList.map _ _ hs₁
  · rename_i hk
    refine .read hs (by simp [hk]) fun hs₁ => ?_
    refine (staysClear_expression _ hs₁).bind fun condition s₂ _ => ?_
    have hsemi : Spares expectSemicolon s₂ fun _ _ => True := by
      rw [← bind_pure expectSemicolon]
      exact .expectSemicolon (.pure trivial)
    exact hsemi.recover.bind fun _ s₃ _ => .pure trivial
  · exact spares_invalidStatement

theorem staysClear_columns (names : List String) : StaysClear (repeated names columnPass) := by
  refine fun s hs => .repeated (I := State.Clear) hs fun names s hs => .look out_peek ?_
  split
  · rename_i name hname
    refine .look out_nextIsAssign ?_
    split
    · exact .pure hs
    · exact .read hs (isInner_of_name hname).1 fun hs₁ => .pure hs₁
  · exact .pure hs

theorem spares_meansItem (read : Option DatasetRef × List (Statistic × List String)) (hs : s.Clear)
    (hn : s.next.kind ≠ .symbol .semicolon) :
    Spares (meansItem read) s fun _ s' => s'.Clear := by
  refine .read hs hn fun hs₁ => .look (out_check _) ?_
  split
  · exact (staysClear_datasetOption _ hs₁).bind fun r s₂ hs₂ => .pure hs₂
  · split
    · exact .throw
    · refine .expectSymbol (by simp) fun hs₂ => ?_
      refine (staysClear_columns [] _ hs₂).bind fun names s₃ hs₃ => ?_
      split
      · exact .look out_peek .throw
      · exact .pure hs₃

theorem spares_meansOutput : SparesFromClear meansOutput := by
  rw [meansOutput_eq]
  refine fun s hs => (staysClear_list (fun read s hs hn => spares_meansItem read hs hn) s hs).bind
    fun read s₁ _ => .look out_peek (.expectSemicolon ?_)
  split
  · exact .pure trivial
  · exact .throw

theorem optionStaysClear_means : OptionStaysClear meansOption := by
  intro request t assigned s hs _
  unfold meansOption
  split
  · exact spares_withDataset hs
  · split
    · exact .throw
    · split
      · exact .pure hs
      · exact .pure hs

theorem spares_meansStatement (request : MeansRequest) :
    SparesFromClear (meansStatement request) := by
  refine fun s hs => .look out_peek ?_
  split
  · rename_i hk
    exact .read hs (by simp [hk]) fun hs₁ => spares_nameList.map _ _ hs₁
  · rename_i hk
    exact .read hs (by simp [hk]) fun hs₁ => spares_meansOutput.map _ _ hs₁
  · exact spares_invalidStatement

theorem optionStaysClear_print : OptionStaysClear printOption := by
  intro request t assigned s hs hassign
  unfold printOption
  split
  · exact spares_withDataset hs
  · have hobs : Spares obsOption s fun _ s' => s'.Clear := by
      refine .read hs (by simp [hassign rfl]) fun hs₁ => .advance hs₁ fun hstep => ?_
      split
      · rename_i hk
        split
        · exact .pure (hstep (by simp [hk]))
        · exact .throw
      · exact .throw
    exact hobs.bind fun obs s₁ hs₁ => .pure hs₁
  · exact .pure hs
  · exact .throw

theorem spares_printStatement (request : PrintRequest) :
    SparesFromClear (printStatement request) := by
  refine fun s hs => .look out_peek ?_
  split
  · rename_i hk
    exact .read hs (by simp [hk]) fun hs₁ => spares_nameList.map _ _ hs₁
  · exact spares_invalidStatement

theorem optionStaysClear_freq : OptionStaysClear freqOption := by
  intro request t assigned s hs _
  unfold freqOption
  split
  · exact spares_withDataset hs
  · exact .throw

theorem spares_freqStatement (request : FreqRequest) : SparesFromClear (freqStatement request) := by
  refine fun s hs => .look out_peek ?_
  split
  · rename_i hk
    exact .read hs (by simp [hk]) fun hs₁ => spares_nameList.map _ _ hs₁
  · exact spares_invalidStatement

theorem spares_skipStep : Spares skipStep s fun _ s' => s'.atEnd := by
  rw [skipStep_eq]
  refine .repeated (I := fun _ => True) trivial fun _ s _ =>
    .look out_atEnd (.look out_atStepBoundary ?_)
  split
  · rename_i hend
    exact .pure hend
  · rename_i hend
    exact .advance (State.clear_of_not_end hend) fun _ => .pure trivial

/-! ### DATA steps -/

/-- A pass over a DATA step, also one whose statement was malformed. -/
theorem spares_stepPass (read : List Statement × List StepStatement) :
    Spares (stepPass read) s (Pass.Holds (fun _ _ => True) fun _ s' => s'.atEnd) := by
  refine .look out_atEnd (.look out_atStepBoundary ?_)
  split
  · rename_i hend
    exact .pure hend
  · rename_i hend
    have hs := State.clear_of_not_end hend
    refine (spares_setting hs).recover.bind fun r s₁ hsetting => ?_
    split
    · exact .pure trivial
    · exact .pure trivial
    · obtain rfl := hsetting _ rfl rfl
      refine .acceptSemicolon (.pure trivial) fun _ => ?_
      refine (spares_stepStatement s₁ hs).recover.bind fun r s₂ _ => ?_
      cases r with
      | some statement => exact .pure trivial
      | none => exact .pure trivial

theorem spares_stepBody : Spares stepBody s fun _ s' => s'.atEnd := by
  rw [stepBody_eq]
  exact .repeated (I := fun _ => True) trivial fun read s _ => spares_stepPass read

theorem spares_openStep (hs : s.Clear) (hn : s.next.kind ≠ .symbol .semicolon) :
    Spares openStep s fun _ s' => s'.atEnd := by
  have hhead : Spares stepHead s fun _ _ => True := by
    rw [stepHead_eq]
    refine .read hs hn fun hs₁ => (staysClear_items staysClear_datasetItem _ hs₁).bind
      fun outputs s₂ _ => ?_
    exact .expectSemicolon (.pure trivial)
  refine hhead.bind fun outputs s₁ _ => .modify ⟨⟨[], rfl, rfl⟩, rfl⟩ rfl ?_
  exact spares_stepBody.bind fun _ _ hend => .pure hend

end StepLang.Parser
