import StepLang.Proofs.Parser.Progress

/-! # Progress of statements, procedures and steps

A statement that is read takes a token at least, and so does one that is malformed and passed over.
So every pass over a group, a procedure, a step or a program takes a token, or is the last one.
-/

namespace StepLang.Parser

variable {α : Type} {s : State} {p q : Parser StepStatement}

/-! ### Branches and groups -/

theorem proceeds_assignment : Proceeds assignment assignment s (Shorter s) := by
  refine .expectName fun name hlt => .expectSymbol fun hlt₁ => ?_
  refine proceeds_expression.bind fun value s₂ _ hlt₂ => ?_
  exact .expectSemicolon fun hlt₃ => .pure (by omega)

theorem proceeds_elementAssignment :
    Proceeds elementAssignment elementAssignment s (Shorter s) := by
  refine .expectName fun array hlt => ?_
  refine (proceeds_subscript fun s' _ => proceeds_expression).bind fun index s₁ _ hlt₁ => ?_
  refine .expectSymbol fun hlt₂ => proceeds_expression.bind fun value s₃ _ hlt₃ => ?_
  exact .expectSemicolon fun hlt₄ => .pure (by omega)

theorem proceeds_alternative (hp : Nested s.size p q) {n m : Nat} (hn : Ample s n m) :
    Proceeds (alternative p n) (alternative q m) s fun _ _ => True := by
  induction n generalizing m s with
  | zero =>
    obtain rfl := hn.eq_zero
    exact .throw
  | succ n ih =>
    obtain ⟨m, rfl⟩ := hn.exists_succ
    unfold alternative
    refine .accept (by simp) (fun hlt => ?_) fun _ => .accept (by simp) (fun hlt => ?_) fun _ => ?_
    · refine proceeds_expression.bind fun condition s₁ _ hlt₁ => .expectKeyword fun hlt₂ => ?_
      refine (hp _ (by omega)).bind fun consequence s₃ _ hlt₃ => ?_
      exact (ih (hp.mono (by omega)) (hn.of_lt (by omega))).bind fun _ _ _ _ => .pure trivial
    · exact (hp _ hlt).bind fun _ _ _ _ => .pure trivial
    · exact .pure trivial

theorem proceeds_ifStatement (hp : Nested s.size p q) (hk : s.next.kind ≠ .endOfInput) :
    Proceeds (ifStatement p) (ifStatement q) s (Shorter s) := by
  refine .read hk fun hlt => proceeds_expression.bind fun condition s₁ _ hlt₁ => ?_
  refine .accept (by simp) (fun hlt₂ => .pure (by omega)) fun _ => .expectKeyword fun hlt₂ => ?_
  refine (hp _ (by omega)).bind fun consequence s₃ _ hlt₃ => .look out_get ?_
  refine (proceeds_alternative (hp.mono (by omega)) (.inl rfl)).bind fun _ s₄ hle₄ _ => ?_
  exact .pure (by omega)

theorem out_atStepBoundary (s : State) : out atStepBoundary s = (.ok s.isBoundary, s) := by
  unfold atStepBoundary State.isBoundary
  rw [out_bind_of_ok (out_peek s)]
  cases s.next.kind <;> rfl

/-- A pass over a DO group, also one whose statement was malformed. -/
theorem proceeds_doPass (hp : Nested (s.size + 1) p q) (body : List StepStatement) :
    Proceeds (doPass p body) (doPass q body) s (Passes s (Shorter s)) := by
  refine .accept (by simp) (fun hlt => ?_) fun _ => ?_
  · exact .expectSemicolon fun hlt₁ => .pure (show _ < _ by omega)
  refine .look out_atEnd (.look out_atStepBoundary ?_)
  split
  · exact .look out_peek .throw
  · rename_i hend
    refine .accept (by simp) (fun hlt => .pure hlt) fun _ => ?_
    refine ((hp s (Nat.lt_succ_self _)).recover_lt (size_pos_of_not_end hend)).bind
      fun r s₁ _ hlt => ?_
    cases r with
    | none => exact .pure hlt
    | some statement => exact .pure hlt

theorem proceeds_doBody (hp : Nested (s.size + 1) p q) :
    Proceeds (doBody p) (doBody q) s (Shorter s) :=
  .loop_lt fun body s' hle => proceeds_doPass (hp.mono (by omega)) body

theorem proceeds_conditionLoop {test : Expression → LoopTest} (hp : Nested s.size p q) :
    Proceeds (conditionLoop p test) (conditionLoop q test) s (Shorter s) := by
  refine .advance (.expectSymbol fun hlt => proceeds_expression.bind fun condition s₁ _ hlt₁ => ?_)
  have hle := size_step_le s
  refine .expectSymbol fun hlt₂ => .expectSemicolon fun hlt₃ => ?_
  refine (proceeds_doBody (hp.mono (by omega))).bind fun body s₄ _ hlt₄ => ?_
  exact .pure (by omega)

theorem proceeds_rangeLoop (hp : Nested s.size p q) :
    Proceeds (rangeLoop p) (rangeLoop q) s (Shorter s) := by
  refine .expectName fun index hlt => .expectSymbol fun hlt₁ => ?_
  refine proceeds_expression.bind fun start s₂ _ hlt₂ => .expectKeyword fun hlt₃ => ?_
  refine proceeds_expression.bind fun stop s₄ _ hlt₄ => ?_
  have hrest {s₅ : State} (increment : Option Expression) (hle₅ : s₅.size ≤ s₄.size) :
      Proceeds
        (do expectSemicolon; return StepStatement.iterate index start stop increment (← doBody p))
        (do expectSemicolon; return StepStatement.iterate index start stop increment (← doBody q))
        s₅ (Shorter s) := by
    refine .expectSemicolon fun hlt₆ => ?_
    refine (proceeds_doBody (hp.mono (by omega))).bind fun body s₇ _ hlt₇ => ?_
    exact .pure (by omega)
  refine .accept (by simp) (fun hlt₅ => ?_) fun _ => ?_
  · simp only [if_true, map_eq_pure_bind, bind_assoc, pure_bind]
    exact proceeds_expression.bind fun increment s₆ _ hlt₆ => hrest _ (by omega)
  · exact hrest none (Nat.le_refl _)

theorem proceeds_doStatement (hp : Nested s.size p q) :
    Proceeds (doStatement p) (doStatement q) s (Shorter s) := by
  refine .advance ?_
  have hle := size_step_le s
  have hp' : Nested s.step.size p q := hp.mono hle
  refine .accept (by simp) (fun hlt => ?_) fun _ => .look out_peek ?_
  · refine (proceeds_doBody (hp.mono (by omega))).bind fun body s₂ _ hlt₂ => ?_
    exact .pure (by omega)
  split
  · exact (proceeds_conditionLoop hp').mono fun _ s' _ hlt => by omega
  · exact (proceeds_conditionLoop hp').mono fun _ s' _ hlt => by omega
  · exact (proceeds_rangeLoop hp').mono fun _ s' _ hlt => by omega

/-! ### Declarations -/

theorem proceeds_arraySize : Proceeds arraySize arraySize s fun _ _ => True := by
  refine .accept (by simp) (fun _ => .pure trivial) fun _ => .advance ?_
  split
  · split
    · exact .pure trivial
    · exact .throw
  · exact .throw

theorem proceeds_elementKind : Proceeds elementKind elementKind s fun _ _ => True := by
  refine .accept (by simp) (fun _ => .look out_peek ?_) fun _ => .pure trivial
  split
  · exact .advance (.pure trivial)
  · exact .pure trivial

theorem proceeds_liftExcept {r : Except Error α} :
    Proceeds (arrayStatement.liftExcept r) (arrayStatement.liftExcept r) s fun _ _ => True := by
  cases r with
  | ok a => exact .pure trivial
  | error e => exact .throw

theorem proceeds_arrayStatement : Proceeds arrayStatement arrayStatement s (Shorter s) := by
  refine .advance (.expectName fun name hlt => .advance ?_)
  have hle := size_step_le s
  have hle' := size_step_le s.step.step
  split
  · exact .look out_previous .throw
  · refine proceeds_arraySize.bind fun size s₁ hle₁ _ => .expectSymbol fun hlt₂ => ?_
    refine proceeds_elementKind.bind fun kind s₃ hle₃ _ => ?_
    refine proceeds_nameList.bind fun names s₄ hle₄ _ => ?_
    refine proceeds_liftExcept.bind fun vars s₅ hle₅ _ => .modify rfl rfl rfl (.pure ?_)
    exact show State.size _ < _ by simp only [State.size] at *; omega

theorem proceeds_literal : Proceeds literal? literal? s fun r s' =>
    r.isSome = true → s'.size < s.size := by
  refine .look out_peek ?_
  split
  · rename_i hk
    exact .read (by simp [hk]) fun hlt => .pure fun _ => hlt
  · rename_i hk
    exact .read (by simp [hk]) fun hlt => .pure fun _ => hlt
  · rename_i hk
    exact .read (by simp [hk]) fun hlt => .pure fun _ => hlt
  · rename_i hk
    refine .look out_peekNext ?_
    split
    · refine .read (by simp [hk]) fun hlt => .advance (.pure fun _ => ?_)
      have hle := size_step_le s.step
      omega
    · exact .throw
  · exact .pure (by simp)

theorem proceeds_retainItem (read : List RetainItem × List RetainItem) :
    Proceeds (retainItem read) (retainItem read) s (Shorter s) := by
  refine proceeds_literal.bind fun r s₁ hle hsome => ?_
  cases r with
  | some initial => exact .pure (hsome rfl)
  | none => exact proceeds_nameOrRange.bind fun names s₂ _ hlt => .pure (by omega)

theorem proceeds_lengthItem (read : List LengthItem × List String) :
    Proceeds (lengthItem read) (lengthItem read) s (Shorter s) := by
  refine Proceeds.acceptOrNot.bind fun character s₁ hle _ => .look out_peek ?_
  split
  · rename_i hk
    refine .read (by simp [hk]) fun hlt => ?_
    split
    · exact .throw
    · split
      · exact .throw
      · exact .pure (show _ < _ by omega)
  · exact proceeds_nameOrRange.bind fun names s₂ _ hlt => .pure (by omega)

theorem proceeds_inputItem (fields : List InputField) :
    Proceeds (inputItem fields) (inputItem fields) s (Shorter s) := by
  refine .accept (by simp) (fun hlt => ?_) fun _ => .expectName fun name hlt => .pure hlt
  cases markCharacter fields with
  | some marked => exact .pure hlt
  | none => exact .look out_previous .throw

theorem proceeds_retainStatement : Proceeds retainStatement retainStatement s (Shorter s) := by
  rw [retainStatement_eq]
  refine .advance ((proceeds_list fun read s' _ => proceeds_retainItem read).bind
    fun read s₁ hle _ => ?_)
  have hle' := size_step_le s
  exact .expectSemicolon fun hlt => .pure (by omega)

theorem proceeds_lengthStatement : Proceeds lengthStatement lengthStatement s (Shorter s) := by
  rw [lengthStatement_eq]
  refine .advance ((proceeds_list fun read s' _ => proceeds_lengthItem read).bind
    fun read s₁ hle _ => ?_)
  have hle' := size_step_le s
  dsimp only
  split
  · exact .expectSemicolon fun hlt => .pure (by omega)
  · exact .look out_peek .throw

theorem proceeds_inputStatement : Proceeds inputStatement inputStatement s (Shorter s) := by
  refine .advance ((proceeds_list fun fields s' _ => proceeds_inputItem fields).bind
    fun fields s₁ hle _ => ?_)
  have hle' := size_step_le s
  exact .expectSemicolon fun hlt => .pure (by omega)

theorem proceeds_dataLinesStatement :
    Proceeds dataLinesStatement dataLinesStatement s (Shorter s) := by
  refine .advance (.expectSemicolon fun hlt => .advance ?_)
  have hle := size_step_le s
  have hle' := size_step_le s.step.step
  split
  · exact .expectSemicolon fun hlt₃ => .pure (by omega)
  · exact .throw

theorem proceeds_keywordStatement {rest rest' : Parser StepStatement}
    (h : Proceeds rest rest' s.step (Shorter s.step)) :
    Proceeds (keywordStatement rest) (keywordStatement rest') s (Shorter s) := by
  refine .advance (h.mono fun _ s' _ hlt => ?_)
  have hle := size_step_le s
  omega

theorem proceeds_statementBody (hp : Nested s.size p q) :
    Proceeds (statementBody p) (statementBody q) s (Shorter s) := by
  refine .look out_peek ?_
  split <;> rename_i hk
  · exact .read (by simp [hk]) fun hlt => .pure hlt
  · exact proceeds_keywordStatement (proceeds_datasetList.bind fun _ _ _ hlt => .pure hlt)
  · exact proceeds_keywordStatement (proceeds_datasetList.bind fun _ _ _ hlt => .pure hlt)
  · exact proceeds_keywordStatement (proceeds_byList.bind fun _ _ _ hlt => .pure hlt)
  · exact proceeds_ifStatement hp (by simp [hk])
  · exact proceeds_doStatement hp
  · exact proceeds_arrayStatement
  · exact proceeds_keywordStatement (proceeds_nameList.bind fun _ _ _ hlt => .pure hlt)
  · exact proceeds_keywordStatement (proceeds_nameList.bind fun _ _ _ hlt => .pure hlt)
  · exact proceeds_retainStatement
  · exact proceeds_lengthStatement
  · exact proceeds_inputStatement
  · exact proceeds_dataLinesStatement
  · exact proceeds_keywordStatement (proceeds_nameList.bind fun _ _ _ hlt => .pure hlt)
  · exact proceeds_keywordStatement (.expectSemicolon fun hlt => .pure hlt)
  · exact proceeds_keywordStatement (.expectSemicolon fun hlt => .pure hlt)
  · exact .throw
  · exact .throw

theorem Proceeds.nextIsSubscript {β : Type} {name : String} {f g : Bool → Parser β}
    {T : β → State → Prop} (h : ∀ b, Proceeds (f b) (g b) s T) :
    Proceeds (nextIsSubscript name >>= f) (nextIsSubscript name >>= g) s T := by
  simp only [Parser.nextIsSubscript, bind_assoc]
  refine .look out_peekNext ?_
  split
  · exact h true
  · exact h true
  · exact .look (out_isArray name) (h _)
  · exact h false

/-- The depth of nesting does not show as long as it exceeds the count of tokens ahead. -/
theorem proceeds_statementUpTo {d d' : Nat} (hd : Ample s d d') :
    Proceeds (statementUpTo d) (statementUpTo d') s (Shorter s) := by
  induction d generalizing d' s with
  | zero =>
    obtain rfl := hd.eq_zero
    exact .throw
  | succ d ih =>
    obtain ⟨d', rfl⟩ := hd.exists_succ
    have hp : Nested s.size (statementUpTo d) (statementUpTo d') :=
      fun s' hlt => ih (hd.of_lt hlt)
    refine .look out_peek ?_
    split
    · refine .look out_nextIsAssign ?_
      split
      · exact proceeds_assignment
      · refine .nextIsSubscript fun b => ?_
        cases b with
        | true => exact proceeds_elementAssignment
        | false => exact proceeds_statementBody hp
    · exact proceeds_statementBody hp

theorem proceeds_stepStatement : Proceeds stepStatement stepStatement s (Shorter s) :=
  .look out_get (proceeds_statementUpTo (.inl rfl))

/-! ### Settings -/

theorem proceeds_optionValue : Proceeds optionValue optionValue s fun _ _ => True := by
  refine .advance ?_
  split
  · exact .pure trivial
  · exact .pure trivial
  · split
    · exact .pure trivial
    · exact .throw

theorem proceeds_optionItem (settings : List (String × String)) :
    Proceeds (optionItem settings) (optionItem settings) s (Shorter s) := by
  refine .expectName fun name hlt => .accept (by simp) (fun hlt₁ => ?_) fun _ => .pure hlt
  exact proceeds_optionValue.bind fun value s₂ hle _ => .pure (by omega)

theorem proceeds_optionsStatement : Proceeds optionsStatement optionsStatement s (Shorter s) := by
  rw [optionsStatement_eq]
  refine .advance ((proceeds_list fun settings s' _ => proceeds_optionItem settings).bind
    fun settings s₁ hle _ => ?_)
  have hle' := size_step_le s
  exact .expectSemicolon fun hlt => .pure (by omega)

theorem proceeds_libnameItem (readOnly : Bool) :
    Proceeds (libnameItem readOnly) (libnameItem readOnly) s (Shorter s) := by
  refine .expectName fun option hlt => .expectSymbol fun hlt₁ => ?_
  refine proceeds_optionValue.bind fun value s₂ hle _ => ?_
  split
  · exact .pure (by omega)
  · exact .look out_previous .throw

theorem proceeds_libnameStatement : Proceeds libnameStatement libnameStatement s (Shorter s) := by
  have hclose {s₁ : State} (libref : String) (engine : Option String) (path : String)
      (hlt : s₁.size ≤ s.size) :
      let p : Parser Statement := do
        let readOnly ← libnameOptions
        expectSemicolon
        return .libname libref engine path readOnly
      Proceeds p p s₁ (Shorter s) := by
    rw [libnameOptions_eq]
    refine (proceeds_list fun readOnly s' _ => proceeds_libnameItem readOnly).bind
      fun readOnly s₂ hle₂ _ => ?_
    exact .expectSemicolon fun hlt₃ => .pure (by omega)
  refine .advance (.expectName fun libref hlt => .look out_peek ?_)
  have hle := size_step_le s
  have hle₂ := size_step_le s.step.step
  have hle₃ := size_step_le s.step.step.step
  dsimp only
  split
  · refine .advance (.advance ?_)
    split
    · exact hclose libref _ _ (by omega)
    · exact .throw
  · refine .advance ?_
    split
    · exact hclose libref _ _ (by omega)
    · exact .throw

theorem proceeds_titleStatement : Proceeds titleStatement titleStatement s (Shorter s) := by
  refine .advance (.look out_peek ?_)
  have hle := size_step_le s
  have hle' := size_step_le s.step
  split
  · exact .advance (.expectSemicolon fun hlt => .pure (by omega))
  · exact .expectSemicolon fun hlt => .pure (by omega)

theorem proceeds_macroItem (parts : List String) :
    Proceeds (macroItem parts) (macroItem parts) s (Shorter s) := by
  refine .look out_atEnd ?_
  dsimp only
  split
  · exact (Proceeds.throw (Q := fun _ _ => False)).bind fun _ _ _ h => h.elim
  · rename_i hend
    have hlt := size_step_of_pos (s := s) (by simpa [State.size, List.length_pos_iff] using hend)
    refine .advance ?_
    split
    · exact .pure hlt
    · exact .pure hlt

theorem proceeds_macroLetStatement :
    Proceeds macroLetStatement macroLetStatement s (Shorter s) := by
  rw [macroLetStatement_eq]
  refine .advance (.expectName fun name hlt => .expectSymbol fun hlt₁ => ?_)
  have hle := size_step_le s
  refine (proceeds_list fun parts s' _ => proceeds_macroItem parts).bind
    fun parts s₂ hle₂ _ => ?_
  exact .expectSemicolon fun hlt₃ => .pure (by omega)

theorem proceeds_setting : Proceeds setting? setting? s fun r s' =>
    (r = none → s' = s) ∧ (r.isSome = true → s'.size < s.size) := by
  have hnone : Proceeds (pure none) (pure none) s fun (r : Option Statement) s' =>
      (r = none → s' = s) ∧ (r.isSome = true → s'.size < s.size) :=
    .pure ⟨fun _ => rfl, by simp⟩
  have hsome {p : Parser Statement} (hp : Proceeds p p s (Shorter s)) :
      Proceeds (some <$> p) (some <$> p) s fun r s' =>
        (r = none → s' = s) ∧ (r.isSome = true → s'.size < s.size) := by
    rw [map_eq_pure_bind]
    exact hp.bind fun a s' _ h => .pure ⟨by simp, fun _ => h⟩
  refine .look out_nextIsAssign ?_
  split
  · exact hnone
  refine .look out_peek ?_
  split
  · exact hsome proceeds_optionsStatement
  · exact hsome proceeds_libnameStatement
  · exact hsome proceeds_titleStatement
  · exact hsome proceeds_macroLetStatement
  · exact .throw
  · exact hnone

theorem proceeds_finishStep : Proceeds finishStep finishStep s fun _ _ => True := by
  have hend : Proceeds (advance >>= fun _ => expectSemicolon)
      (advance >>= fun _ => expectSemicolon) s fun _ _ => True := by
    refine .advance ?_
    rw [← bind_pure expectSemicolon]
    exact .expectSemicolon fun _ => .pure trivial
  refine .look out_peek ?_
  split
  · exact hend
  · exact hend
  · exact .pure trivial

/-! ### Procedures -/

theorem proceeds_datasetOption : Proceeds datasetOption datasetOption s (Shorter s) :=
  .expectSymbol fun hlt => proceeds_datasetRef.mono fun _ s' _ hlt' => by omega

theorem proceeds_invalidStatement {Q : α → State → Prop} {name : String} :
    Proceeds (invalidStatement name) (invalidStatement name) s Q :=
  .look out_peek .throw

/-- An option of a procedure that gives a result does not begin at the end of input. -/
def IsOption (option : α → Token → Bool → Parser α) : Prop :=
  ∀ a t b s, Proceeds (option a t b) (option a t b) s fun _ _ => t.kind ≠ .endOfInput

theorem proceeds_procedureItem {option : α → Token → Bool → Parser α} (h : IsOption option)
    (request : α) :
    Proceeds (procedureItem option request) (procedureItem option request) s (Shorter s) := by
  refine .ready fun heof => .advance (.look (out_check _) ?_)
  refine (h request s.next _ s.step).mono fun _ s' hle hne => ?_
  have hlt := size_step_lt heof hne
  omega

theorem proceeds_procedureOptions {init : α} {option : α → Token → Bool → Parser α}
    (h : IsOption option) :
    Proceeds (procedureOptions init option) (procedureOptions init option) s fun _ _ => True := by
  rw [procedureOptions_eq]
  refine (proceeds_list fun a s' _ => proceeds_procedureItem h a).bind fun _ s₁ _ _ => ?_
  exact .expectSemicolon fun _ => .pure trivial

/-- A pass over a procedure, also one whose statement was malformed. -/
theorem proceeds_procedurePass {statement : α → Parser α}
    (h : ∀ a s, Proceeds (statement a) (statement a) s (Shorter s)) (read : α × List Statement) :
    Proceeds (procedurePass statement read) (procedurePass statement read) s
      (Passes s fun _ s' => s' = s) := by
  refine .look out_atEnd (.look out_atStepBoundary ?_)
  split
  · exact .pure rfl
  · rename_i hend
    refine .accept (by simp) (fun hlt => .pure hlt) fun _ => ?_
    refine (Proceeds.recover_lt ?_ (size_pos_of_not_end hend)).bind fun r s₁ _ hlt => .pure hlt
    refine proceeds_setting.bind fun r s₁ _ ⟨hnone, hsome⟩ => ?_
    cases r with
    | some setting => exact .pure (hsome rfl)
    | none =>
      obtain rfl := hnone rfl
      exact (h _ s₁).bind fun request s₂ _ hlt => .pure hlt

theorem proceeds_procedureBody {init : α} {statement : α → Parser α}
    (h : ∀ a s, Proceeds (statement a) (statement a) s (Shorter s)) :
    Proceeds (procedureBody init statement) (procedureBody init statement) s fun _ _ => True := by
  rw [procedureBody_eq]
  refine (Proceeds.loop fun read s' _ => proceeds_procedurePass h read).bind fun result s₁ _ _ => ?_
  exact proceeds_finishStep.bind fun _ _ _ _ => .pure trivial

theorem proceeds_withDataset {k : Token.Kind} {f : DatasetRef → α} (hk : k ≠ .endOfInput) :
    Proceeds (do return f (← datasetOption)) (do return f (← datasetOption)) s
      fun _ _ => k ≠ .endOfInput :=
  proceeds_datasetOption.bind fun _ _ _ _ => .pure hk

theorem isOption_sortOption : IsOption sortOption := by
  intro request t assigned s
  unfold sortOption
  split <;> try rename_i hk
  · exact proceeds_withDataset (by simp [hk])
  · exact proceeds_withDataset (by simp [hk])
  · exact .pure (by simp [hk])
  · exact .pure (by simp [hk])
  · exact .pure (by simp [hk])
  · exact .throw

theorem proceeds_sortStatement (request : SortRequest) :
    Proceeds (sortStatement request) (sortStatement request) s (Shorter s) := by
  have hle := size_step_le s
  refine .look out_peek ?_
  split
  · exact .advance (proceeds_byList.bind fun keys s₁ _ hlt => .pure (by omega))
  · refine .advance (proceeds_expression.bind fun condition s₁ _ hlt => ?_)
    have hsemi : Proceeds expectSemicolon expectSemicolon s₁ fun _ _ => True := by
      rw [← bind_pure expectSemicolon]
      exact .expectSemicolon fun _ => .pure trivial
    exact hsemi.recover.bind fun _ s₂ hle₂ _ => .pure (by omega)
  · exact proceeds_invalidStatement

theorem proceeds_sortProcedure : Proceeds sortProcedure sortProcedure s fun _ _ => True := by
  rw [sortProcedure_eq]
  refine .look out_previous ((proceeds_procedureOptions isOption_sortOption).bind
    fun request s₁ _ _ => ?_)
  refine (proceeds_procedureBody fun request s' => proceeds_sortStatement request).bind
    fun result s₂ _ _ => ?_
  dsimp only
  split
  · exact .report (.pure trivial)
  · exact .pure trivial

theorem proceeds_columnPass (names : List String) :
    Proceeds (columnPass names) (columnPass names) s (Passes s fun _ s' => s' = s) := by
  refine .look out_peek ?_
  split
  · rename_i name hname
    refine .look out_nextIsAssign ?_
    split
    · exact .pure rfl
    · exact .read (isInner_of_name hname).2 fun hlt => .pure hlt
  · exact .pure rfl

theorem proceeds_meansItem (read : Option DatasetRef × List (Statistic × List String)) :
    Proceeds (meansItem read) (meansItem read) s (Shorter s) := by
  refine .ready fun heof => .advance (.look (out_check _) ?_)
  have hle := size_step_le s
  split
  · exact proceeds_datasetOption.bind fun r s₁ _ hlt => .pure (by omega)
  · split
    · exact .throw
    · refine .expectSymbol fun hlt => ?_
      refine (Proceeds.loop fun names s' _ => proceeds_columnPass names).bind
        fun names s₁ hle₁ _ => ?_
      split
      · exact .look out_peek .throw
      · exact .pure (by omega)

theorem proceeds_meansOutput : Proceeds meansOutput meansOutput s (Shorter s) := by
  rw [meansOutput_eq]
  refine (proceeds_list fun read s' _ => proceeds_meansItem read).bind
    fun read s₁ hle _ => .look out_peek (.expectSemicolon fun hlt => ?_)
  split
  · exact .pure (by omega)
  · exact .throw

theorem isOption_meansOption : IsOption meansOption := by
  intro request t assigned s
  unfold meansOption
  split
  · rename_i hdata
    have hk : t.kind = .keyword .DATA := by simpa using (Bool.and_eq_true_iff.mp hdata).1
    exact proceeds_withDataset (by simp [hk])
  · split
    · exact .throw
    · rename_i statistic hstat
      split
      · exact .pure (ne_endOfInput_of_statistic hstat)
      · exact .pure (ne_endOfInput_of_statistic hstat)

theorem proceeds_meansStatement (request : MeansRequest) :
    Proceeds (meansStatement request) (meansStatement request) s (Shorter s) := by
  have hle := size_step_le s
  refine .look out_peek ?_
  split
  · exact .advance (proceeds_nameList.bind fun names s₁ _ hlt => .pure (by omega))
  · exact .advance (proceeds_meansOutput.bind fun output s₁ _ hlt => .pure (by omega))
  · exact proceeds_invalidStatement

theorem proceeds_meansProcedure : Proceeds meansProcedure meansProcedure s fun _ _ => True := by
  rw [meansProcedure_eq]
  refine .look out_previous ((proceeds_procedureOptions isOption_meansOption).bind
    fun request s₁ _ _ => ?_)
  refine (proceeds_procedureBody fun request s' => proceeds_meansStatement request).bind
    fun result s₂ _ _ => ?_
  dsimp only
  split
  · exact .report (.pure trivial)
  · exact .pure trivial

theorem proceeds_obsOption : Proceeds obsOption obsOption s fun _ _ => True := by
  refine .advance (.advance ?_)
  split
  · split
    · exact .pure trivial
    · exact .throw
  · exact .throw

theorem isOption_printOption : IsOption printOption := by
  intro request t assigned s
  unfold printOption
  split <;> try rename_i hk
  · exact proceeds_withDataset (by simp [hk])
  · exact proceeds_obsOption.bind fun _ _ _ _ => .pure (by simp [hk])
  · exact .pure (by simp [hk])
  · exact .throw

theorem proceeds_printStatement (request : PrintRequest) :
    Proceeds (printStatement request) (printStatement request) s (Shorter s) := by
  have hle := size_step_le s
  refine .look out_peek ?_
  split
  · exact .advance (proceeds_nameList.bind fun names s₁ _ hlt => .pure (by omega))
  · exact proceeds_invalidStatement

theorem proceeds_printProcedure : Proceeds printProcedure printProcedure s fun _ _ => True := by
  rw [printProcedure_eq]
  refine (proceeds_procedureOptions isOption_printOption).bind fun request s₁ _ _ => ?_
  refine (proceeds_procedureBody fun request s' => proceeds_printStatement request).bind
    fun result s₂ _ _ => ?_
  exact .pure trivial

theorem isOption_freqOption : IsOption freqOption := by
  intro request t assigned s
  unfold freqOption
  split <;> try rename_i hk
  · exact proceeds_withDataset (by simp [hk])
  · exact .throw

theorem proceeds_freqStatement (request : FreqRequest) :
    Proceeds (freqStatement request) (freqStatement request) s (Shorter s) := by
  have hle := size_step_le s
  refine .look out_peek ?_
  split
  · exact .advance (proceeds_nameList.bind fun names s₁ _ hlt => .pure (by omega))
  · exact proceeds_invalidStatement

theorem proceeds_freqProcedure : Proceeds freqProcedure freqProcedure s fun _ _ => True := by
  rw [freqProcedure_eq]
  refine (proceeds_procedureOptions isOption_freqOption).bind fun request s₁ _ _ => ?_
  refine (proceeds_procedureBody fun request s' => proceeds_freqStatement request).bind
    fun result s₂ _ _ => ?_
  exact .pure trivial

theorem proceeds_sqlPass :
    Proceeds (sqlPass ()) (sqlPass ()) s (Passes s fun _ _ => True) := by
  refine .look out_atEnd ?_
  split
  · exact .pure trivial
  · rename_i hend
    have hlt := size_step_of_pos (s := s) (by simpa [State.size, List.length_pos_iff] using hend)
    refine .advance (.look (out_check _) ?_)
    split
    · exact .advance (.pure trivial)
    · exact .pure hlt

theorem proceeds_skipPass :
    Proceeds (skipPass ()) (skipPass ()) s (Passes s fun _ s' => s' = s) := by
  refine .look out_atEnd (.look out_atStepBoundary ?_)
  split
  · exact .pure rfl
  · rename_i hend
    exact .advance (.pure (size_step_of_pos (size_pos_of_not_end hend)))

theorem proceeds_procedure (hk : s.next.kind ≠ .endOfInput) :
    Proceeds procedure procedure s (Shorter s) := by
  refine .read hk fun hlt => .advance ?_
  have hle := size_step_le s.step
  split
  · exact proceeds_sortProcedure.mono fun _ s' _ _ => by omega
  · exact proceeds_meansProcedure.mono fun _ s' _ _ => by omega
  · exact proceeds_printProcedure.mono fun _ s' _ _ => by omega
  · exact proceeds_freqProcedure.mono fun _ s' _ _ => by omega
  · rw [skipSql_eq]
    exact (Proceeds.loop fun _ s' _ => proceeds_sqlPass).bind fun _ s₁ hle₁ _ => .pure (by omega)
  · split
    · exact .throw
    · rw [skipStep_eq]
      refine (Proceeds.loop fun _ s' _ => proceeds_skipPass).bind fun _ s₁ hle₁ _ => ?_
      exact proceeds_finishStep.bind fun _ s₂ hle₂ _ => .pure (by omega)

/-! ### Steps and programs -/

/-- A pass over a DATA step, also one whose statement was malformed. -/
theorem proceeds_stepPass (read : List Statement × List StepStatement) :
    Proceeds (stepPass read) (stepPass read) s (Passes s fun _ s' => s' = s) := by
  refine .look out_atEnd (.look out_atStepBoundary ?_)
  split
  · exact .pure rfl
  · rename_i hend
    have hpos := size_pos_of_not_end hend
    refine proceeds_setting.recover.bind fun r s₁ _ ⟨hsome, hnone⟩ => ?_
    split
    · exact .pure (hnone rfl hpos)
    · exact .pure ((hsome _ rfl).2 rfl)
    · obtain rfl := (hsome _ rfl).1 rfl
      refine .accept (by simp) (fun hlt => .pure hlt) fun _ => ?_
      refine (proceeds_stepStatement.recover_lt hpos).bind fun r s₂ _ hlt => ?_
      cases r with
      | some statement => exact .pure hlt
      | none => exact .pure hlt

theorem proceeds_dataStep (hk : s.next.kind ≠ .endOfInput) :
    Proceeds dataStep dataStep s (Shorter s) := by
  refine .read hk fun hlt => ?_
  refine (proceeds_list fun refs s' _ => proceeds_datasetItem refs).bind
    fun outputs s₁ hle₁ _ => .expectSemicolon fun hlt₂ => .modify rfl rfl rfl ?_
  rw [stepBody_eq]
  refine (Proceeds.loop fun read s' _ => proceeds_stepPass read).bind fun result s₃ hle₃ _ => ?_
  refine proceeds_finishStep.bind fun _ s₄ hle₄ _ => .pure (show s₄.size < s.size from ?_)
  simp only [State.size] at *
  omega

theorem proceeds_programStatement (hpos : 0 < s.size) :
    Proceeds programStatement programStatement s (Shorter s) := by
  refine .look out_nextIsAssign (.look out_peek ?_)
  split <;> try rename_i hk _
  · exact .advance (.pure (size_step_of_pos hpos))
  · exact proceeds_dataStep (by simp [hk])
  · exact proceeds_procedure (by simp [hk])
  · exact .read (by simp [hk]) fun hlt => .expectSemicolon fun hlt₁ => .pure (by omega)
  · exact .read (by simp [hk]) fun hlt => .expectSemicolon fun hlt₁ => .pure (by omega)
  · refine proceeds_setting.bind fun r s₁ _ ⟨hnone, hsome⟩ => ?_
    cases r with
    | some setting => exact .pure (hsome rfl)
    | none =>
      obtain rfl := hnone rfl
      exact proceeds_stepStatement.bind fun statement s₂ _ hlt => .pure hlt

/-- A pass over a program, also one whose statement was malformed. -/
theorem proceeds_programPass (statements : List Statement) :
    Proceeds (programPass statements) (programPass statements) s
      (Passes s fun _ s' => s' = s ∧ s.ahead = []) := by
  refine .look out_atEnd ?_
  split
  · rename_i hend
    exact .pure ⟨rfl, by simpa using hend⟩
  · rename_i hend
    have hpos : 0 < s.size := by simpa [State.size, List.length_pos_iff] using hend
    exact ((proceeds_programStatement hpos).recover_lt hpos).bind fun r s₁ _ hlt => .pure hlt

end StepLang.Parser
