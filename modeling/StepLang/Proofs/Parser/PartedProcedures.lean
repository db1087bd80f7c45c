import StepLang.Proofs.Parser.PartedStatements

/-! # Settings and procedures among parted words

A setting does not begin with `ELSE`, and the value of a `%LET` statement has no parted words. No
statement of a procedure has such a word either, and what is passed over is read token by token.
-/

namespace StepLang.Parser

variable {α β : Type} {k : Bool} {s t : State}

/-! ### Settings -/

theorem shadows_optionValue : Shadows true s t optionValue optionValue Agree := by
  unfold optionValue
  refine .advanceOr (fun hjoint => ?_) fun hl => ?_
  · unfold Token.name?
    rw [hjoint]
    rintro a s' ⟨⟩
  rw [hl.next.kind, hl.next.lexeme, hl.next.name?]
  split
  · exact .pure rfl
  · exact .pure rfl
  · split
    · exact .pure rfl
    · exact .throw

theorem shadows_optionItem (settings : List (String × String)) :
    Shadows true s t (optionItem settings) (optionItem settings) (AgreeBehind t) := by
  unfold optionItem
  refine .expectName fun name _ _ hlt => .acceptSymbol (fun _ hlt₁ => ?_) (.pure ⟨rfl, hlt⟩)
  refine shadows_optionValue.bind ?_
  rintro _ value s₂ t₂ hle₂ rfl
  exact .pure ⟨rfl, by omega⟩

theorem shadows_optionsStatement (hk : s.next.kind = .keyword .OPTIONS) :
    Shadows true s t optionsStatement optionsStatement (AgreeBehind t) := by
  rw [optionsStatement_eq]
  refine .read (by simp [hk]) fun _ hlt => ?_
  refine (Shadows.list fun settings s' t' _ => shadows_optionItem settings).bind ?_
  rintro _ settings s₁ t₁ hle rfl
  exact .expectSemicolon fun hlt₂ => .pure ⟨rfl, by omega⟩

theorem shadows_libnameItem (readOnly : Bool) :
    Shadows true s t (libnameItem readOnly) (libnameItem readOnly) (AgreeBehind t) := by
  unfold libnameItem
  refine .expectName fun option _ _ hlt => .expectSymbol fun _ _ hlt₁ => ?_
  refine shadows_optionValue.bind ?_
  rintro _ value s₂ t₂ hle₂ rfl
  split
  · exact .pure ⟨rfl, by omega⟩
  · exact .previous .throw

theorem shadows_libnameStatement (hk : s.next.kind = .keyword .LIBNAME) :
    Shadows true s t libnameStatement libnameStatement (AgreeBehind t) := by
  have hclose {s₁ t₁ : State} (libref : String) (engine : Option String) (path : String)
      (hlt : t₁.size < t.size) :
      let p : Parser Statement := do
        let readOnly ← libnameOptions
        expectSemicolon
        return .libname libref engine path readOnly
      Shadows true s₁ t₁ p p (AgreeBehind t) := by
    rw [libnameOptions_eq]
    refine (Shadows.list fun readOnly s' t' _ => shadows_libnameItem readOnly).bind ?_
    rintro _ readOnly s₂ t₂ hle₂ rfl
    exact .expectSemicolon fun hlt₃ => .pure ⟨rfl, by omega⟩
  unfold libnameStatement
  refine .read (by simp [hk]) fun _ hlt => .expectName fun libref _ _ hlt₁ => .peek ?_
  cases hname : s.step.step.next.name? with
  | some name =>
    refine .twin fun ht => ?_
    have hjoint : s.step.step.next.kind ≠ .keyword .ELSEIF := by
      intro h
      simp [Token.name?, h, Token.Kind.isSoft, Keyword.isSoft] at hname
    rw [(ht.level hjoint).next.name?, hname]
    refine .read ⟨hjoint, (isInner_of_name hname).2⟩ fun _ hlt₂ =>
      .advanceOr (fun hjoint => ?_) fun hl => ?_
    · rw [hjoint]
      rintro a s' ⟨⟩
    have hle := size_step_le t.step.step.step
    rw [hl.next.kind]
    split
    · exact hclose libref _ _ (by omega)
    · exact .throw
  | none =>
    refine .twin fun ht => ?_
    have hnone : t.step.step.next.name? = none := by
      rcases ht.level_or_split with hl | hs
      · rw [hl.next.name?, hname]
      · exact hs.first_name?
    rw [hnone]
    refine .advanceOr (fun hjoint => ?_) fun hl => ?_
    · rw [hjoint]
      rintro a s' ⟨⟩
    have hle := size_step_le t.step.step
    rw [hl.next.kind]
    split
    · exact hclose libref _ _ (by omega)
    · exact .throw

theorem shadows_titleStatement (hk : s.next.kind = .keyword .TITLE) :
    Shadows true s t titleStatement titleStatement (AgreeBehind t) := by
  unfold titleStatement
  refine .read (by simp [hk]) fun _ hlt => .peek (.twin fun ht => ?_)
  rcases ht.level_or_split with hl | hs
  · rw [hl.next.kind]
    split
    · rename_i hk'
      exact .read (by simp [hk']) fun _ hlt₁ => .expectSemicolon fun hlt₂ => .pure ⟨rfl, by omega⟩
    · exact .expectSemicolon fun hlt₂ => .pure ⟨rfl, by omega⟩
  · rw [hs.joint, hs.first]
    exact .expectSemicolon fun hlt₂ => .pure ⟨rfl, by omega⟩

/-- The rest of the statement has no parted words. -/
def Inline (s t : State) : Prop := List.Forall₂ Token.Alike (line s.ahead) (line t.ahead)

theorem line_eq (hne : s.ahead ≠ []) (hk : s.next.kind ≠ .symbol .semicolon) :
    line s.ahead = s.next :: line s.step.ahead := by
  unfold line State.step
  unfold State.next at hk ⊢
  cases hahead : s.ahead with
  | nil => exact absurd hahead hne
  | cons u us =>
    rw [hahead, List.headD_cons] at hk
    exact List.takeWhile_cons_of_pos (bne_iff_ne.mpr hk)

theorem ne_nil_of_kind (he : s.eof.kind = .endOfInput) (hk : s.next.kind ≠ .endOfInput) :
    s.ahead ≠ [] := by
  intro hnil
  rw [State.next, hnil] at hk
  exact hk he

theorem Inline.level (h : Inline s t) (ht : Twin s t) : Level s t := by
  refine ht.level_or_split.resolve_right fun hs => ?_
  have hs' := line_eq (ne_nil_of_kind ht.isEnd (by simp [hs.joint])) (by simp [hs.joint])
  have ht' := line_eq (ne_nil_of_kind (ht.eof.kind.trans ht.isEnd) (by simp [hs.first]))
    (by simp [hs.first])
  rw [Inline, hs', ht', List.forall₂_cons] at h
  exact absurd (hs.joint ▸ hs.first ▸ h.1.kind) (by simp)

theorem Inline.step (h : Inline s t) (hl : Level s t) (hne : s.ahead ≠ [] ∧ t.ahead ≠ [])
    (hk : s.next.kind ≠ .symbol .semicolon) : Inline s.step t.step := by
  rw [Inline, line_eq hne.1 hk, line_eq hne.2 (hl.next.kind ▸ hk), List.forall₂_cons] at h
  exact h.2

theorem Inline.step_inner (h : Inline s t) (ht : Twin s t) (hk : IsInner s.next.kind) :
    Inline s.step t.step :=
  have hl := h.level ht
  h.step hl ⟨ne_nil_of_kind ht.isEnd hk.2,
    ne_nil_of_kind (ht.eof.kind.trans ht.isEnd) (hl.next.kind ▸ hk.2)⟩ hk.1

/-- A token of the value of a `%LET` statement is read without its place. -/
theorem shadows_macroPass (parts : List String) (h : Inline s t) :
    Shadows true s t (listPass macroItem parts) (listPass macroItem parts)
      (Pass.Both t (fun a b s t => b = a ∧ Inline s t) Agree) := by
  refine .check (by simp) ?_
  split
  · exact .pure rfl
  rename_i hk
  simp only [macroItem, bind_assoc]
  refine .twin fun ht => .atEnd ?_
  split
  · exact (Shadows.throw (R := fun _ _ _ _ => False)).bind fun _ _ _ _ _ h => h.elim
  rename_i hend
  have hl := h.level ht
  have hne : s.ahead ≠ [] := by simpa using hend
  have hne' : t.ahead ≠ [] := by simpa [← ht.ahead.isEmpty] using hend
  have hstep := h.step hl ⟨hne, hne'⟩ (by simpa using hk)
  have hlt := size_step_of_pos (List.length_pos_iff.mpr hne')
  simp only [bind_assoc]
  refine .advance hl fun _ => ?_
  rw [hl.next.kind, hl.next.lexeme]
  split
  · exact .pure ⟨⟨rfl, hstep⟩, hlt⟩
  · exact .pure ⟨⟨rfl, hstep⟩, hlt⟩

theorem shadows_macroLetStatement (hk : s.next.kind = .macroWord .LET) :
    Shadows true s t macroLetStatement macroLetStatement (AgreeBehind t) := by
  rw [macroLetStatement_eq]
  refine .twin fun ht => .read (by simp [hk]) fun hl hlt => ?_
  have hline : Inline s.step t.step := hl.line hk
  refine .expectName fun name hname hl₁ hlt₁ => .expectSymbol fun hassign hl₂ hlt₂ => ?_
  have hline₁ := hline.step_inner hl.rest (isInner_of_name hname)
  have hline₂ := hline₁.step_inner hl₁.rest (by simp [IsInner, hassign])
  refine (Shadows.repeated (I := fun a b s t => b = a ∧ Inline s t) (R := Agree) (.inl rfl)
    ⟨rfl, hline₂⟩ ?_).bind ?_
  · rintro _ parts s' t' hle ⟨rfl, h⟩
    exact shadows_macroPass parts h
  · rintro _ parts s₁ t₁ hle₁ rfl
    exact .expectSemicolon fun hlt₃ => .pure ⟨rfl, by omega⟩

theorem out_setting_keyword {c : Keyword} (hk : s.next.kind = .keyword c)
    (hc : c ≠ .OPTIONS ∧ c ≠ .LIBNAME ∧ c ≠ .TITLE) : out setting? s = (.ok none, s) := by
  unfold setting?
  rw [out_bind_of_ok (out_nextIsAssign s)]
  split
  · rfl
  · rw [out_bind_of_ok (out_peek s), hk]
    split <;> simp_all

theorem shadows_setting : Shadows true s t setting? setting? fun a b _ t' =>
    b = a ∧ (a.isSome = true → t'.size < t.size) := by
  refine .twin fun ht => ?_
  rcases ht.level_or_split with hl | hs
  · have hsome {p : Parser Statement} (hp : Shadows true s t p p (AgreeBehind t)) :
        Shadows true s t (some <$> p) (some <$> p) fun a b _ t' =>
          b = a ∧ (a.isSome = true → t'.size < t.size) := by
      rw [map_eq_pure_bind]
      exact hp.bind fun _ _ _ _ _ h => .pure ⟨by rw [h.1], fun _ => h.2⟩
    unfold setting?
    refine .nextIsAssign hl ?_
    split
    · exact .pure ⟨rfl, by simp⟩
    refine .peek ?_
    rw [hl.next.kind]
    split <;> try rename_i hk
    · exact hsome (shadows_optionsStatement hk)
    · exact hsome (shadows_libnameStatement hk)
    · exact hsome (shadows_titleStatement hk)
    · exact hsome (shadows_macroLetStatement hk)
    · exact .throw
    · exact .pure ⟨rfl, by simp⟩
  · exact .of_out (m := pure none) (n := pure none) (out_setting_keyword hs.joint (by simp))
      (out_setting_keyword hs.first (by simp)) rfl rfl (Nat.le_refl _) id (.pure ⟨rfl, by simp⟩)

theorem shadows_finishStep : Shadows true s t finishStep finishStep Agree := by
  unfold finishStep
  refine .peek (.twin fun ht => ?_)
  rcases ht.level_or_split with hl | hs
  · rw [hl.next.kind]
    split <;> try rename_i hk
    · refine .read (by simp [hk]) fun _ hlt => ?_
      rw [← bind_pure expectSemicolon]
      exact .expectSemicolon fun _ => .pure rfl
    · refine .read (by simp [hk]) fun _ hlt => ?_
      rw [← bind_pure expectSemicolon]
      exact .expectSemicolon fun _ => .pure rfl
    · exact .pure rfl
  · rw [hs.joint, hs.first]
    exact .pure rfl

/-! ### Parts of procedures -/

theorem shadows_datasetOption : Shadows true s t datasetOption datasetOption (AgreeBehind t) :=
  .expectSymbol fun _ _ hlt => shadows_datasetRef.mono fun _ _ _ _ _ h => ⟨h.1, by omega⟩

/-- An option of a procedure is read alike behind tokens that differ in their places, and is neither
`ELSE IF` nor the end of input. -/
structure ReadsOption (option : α → Token → Bool → Parser α) : Prop where
  refuses : ∀ request u assigned s, u.kind = .keyword .ELSEIF ∨ u.kind = .endOfInput →
    ∃ e, out (option request u assigned) s = (.error e, s)
  shadows : ∀ request u v assigned s t, u.Alike v →
    (assigned = true → s.next.kind = .symbol .assign) →
    Shadows true s t (option request u assigned) (option request v assigned) Agree
  grows : ∀ request t assigned, Grows (option request t assigned)

/-- A statement of a procedure is read alike from both states, with a token at least. -/
structure ReadsRequest (statement : α → Parser α) : Prop where
  shadows : ∀ request s t,
    Shadows false s t (statement request) (statement request) (AgreeBehind t)
  grows : ∀ request, Grows (statement request)

section

variable {option : α → Token → Bool → Parser α} {statement : α → Parser α}

theorem shadows_procedureOptions (h : ReadsOption option) (init : α) :
    Shadows true s t (procedureOptions init option) (procedureOptions init option)
      (AgreeBehind t) := by
  rw [procedureOptions_eq]
  refine (Shadows.list fun request s' t' _ => ?_).bind ?_
  · by_cases hk : s'.next.kind = .keyword .ELSEIF ∨ s'.next.kind = .endOfInput
    · refine .vacuous fun a s₁ ha => ?_
      rw [procedureItem, out_bind_of_ok (out_advance s')] at ha
      obtain ⟨e, he⟩ := h.refuses request s'.next _ s'.step hk
      cases he.symm.trans ha
    · refine .read (not_or.mp hk) fun hl hlt => .check (by simp) ?_
      exact (h.shadows request _ _ _ _ _ hl.next beq_iff_eq.mp).behind hlt
  · rintro _ request s₁ t₁ hle rfl
    exact .expectSemicolon fun hlt => .pure ⟨rfl, by omega⟩

theorem shadows_procedureStatement (h : ReadsRequest statement) (read : α × List Statement) :
    Shadows false s t (procedureStatement statement read) (procedureStatement statement read)
      (AgreeBehind t) := by
  refine shadows_setting.bind ?_
  rintro _ r s₁ t₁ hle ⟨rfl, hlt⟩
  cases r with
  | some setting => exact .pure ⟨rfl, hlt rfl⟩
  | none =>
    refine (h.shadows read.1 s₁ t₁).bindLoud (h.grows _) (fun _ => .pure) ?_
    rintro _ request s₂ t₂ hle₂ ⟨rfl, hlt₂⟩
    exact .pure ⟨rfl, by omega⟩

theorem shadows_procedureBody (h : ReadsRequest statement) (init : α) :
    Shadows false s t (procedureBody init statement) (procedureBody init statement) Agree := by
  rw [procedureBody_eq]
  refine (Shadows.repeated (I := Agree) (R := Agree)
    (.inr (composes_grows.procedurePass h.grows)) rfl ?_).bindLoud
    (composes_grows.repeated (composes_grows.procedurePass h.grows))
    (fun _ => composes_grows.finishStep.bind fun _ => .pure) ?_
  · rintro _ read s' t' hle rfl
    unfold procedurePass
    refine .atEnd (.atStepBoundary ?_)
    split
    · exact .pure rfl
    · refine .acceptSymbol (fun _ hlt => .pure ⟨rfl, hlt⟩) ?_
      have hgrows := composes_grows.procedureStatement h.grows read
      refine (Shadows.recover hgrows (shadows_procedureStatement h read)).bindLoud hgrows.recover
        (fun _ => .pure) ?_
      rintro _ _ s₁ t₁ hle₁ ⟨_, next, rfl, rfl, rfl, hlt₁⟩
      exact .pure ⟨rfl, hlt₁⟩
  · rintro _ result s₁ t₁ hle₁ rfl
    exact shadows_finishStep.bind fun _ _ _ _ _ _ => .pure rfl

variable {finish : α × List Statement → Parser β}

theorem shadows_procedureParts {finish' : α × List Statement → Parser β} (ho : ReadsOption option)
    (hs : ReadsRequest statement) (init : α) (hf : ∀ r, Grows (finish r))
    (h : ∀ r s t, Shadows false s t (finish r) (finish' r) Agree) :
    Shadows false s t
      (do
        let request ← procedureOptions init option
        let r ← procedureBody request statement
        finish r)
      (do
        let request ← procedureOptions init option
        let r ← procedureBody request statement
        finish' r) Agree := by
  refine (shadows_procedureOptions ho init).bind ?_
  rintro _ request s₁ t₁ hle ⟨rfl, -⟩
  refine (shadows_procedureBody hs _).bindLoud (composes_grows.procedureBody hs.grows) hf ?_
  rintro _ r s₂ t₂ hle₂ rfl
  exact h _ s₂ t₂

end

theorem shadows_invalidStatement {name : String} {R : α → α → State → State → Prop} :
    Shadows k s t (invalidStatement name) (invalidStatement name) R :=
  .peek .throw

/-- What is made of a procedure that is reported if it lacks a statement. -/
def requestUnless (lacks : Bool) (e : Error) (settings : List Statement) (statement : Statement) :
    Parser (List Statement) := do
  if lacks then
    report e
    return settings
  else return settings ++ [statement]

theorem Grows.requestUnless {lacks : Bool} {e : Error} {settings : List Statement}
    {statement : Statement} : Grows (requestUnless lacks e settings statement) := by
  cases lacks with
  | true => exact Grows.report.bind fun _ => .pure
  | false => exact .pure

theorem shadows_requestUnless {lacks : Bool} {e e' : Error} {settings : List Statement}
    {statement : Statement} : Shadows false s t (requestUnless lacks e settings statement)
      (requestUnless lacks e' settings statement) Agree := by
  cases lacks with
  | true =>
    rintro - a s' ⟨⟩ hk
    exact absurd (hk.resolve_left (by simp)) (by simp)
  | false => exact .pure rfl

/-! ### The procedures -/

theorem readsOption_sort : ReadsOption sortOption where
  refuses request u assigned s hu := by
    unfold sortOption
    rcases hu with hk | hk <;> rw [hk] <;> cases assigned <;> exact ⟨_, rfl⟩
  shadows request u v assigned s t h hassign := by
    unfold sortOption
    rw [h.kind]
    split
    · exact shadows_datasetOption.bind fun _ _ _ _ _ h => .pure (by rw [h.1])
    · exact shadows_datasetOption.bind fun _ _ _ _ _ h => .pure (by rw [h.1])
    · exact .pure rfl
    · exact .pure rfl
    · exact .pure rfl
    · exact .throw
  grows := composes_grows.sortOption

theorem readsRequest_sort : ReadsRequest sortStatement where
  shadows request s t := by
    unfold sortStatement
    refine .peek (.twin fun ht => ?_)
    rcases ht.level_or_split with hl | hs
    · rw [hl.next.kind]
      split <;> try rename_i hk
      · refine .read (by simp [hk]) fun _ hlt => shadows_byList.bind ?_
        rintro _ keys s₁ t₁ hle ⟨rfl, hlt₁⟩
        exact .pure ⟨rfl, by omega⟩
      · refine .read (by simp [hk]) fun _ hlt => shadows_expression.bind ?_
        rintro _ condition s₁ t₁ hle ⟨rfl, hlt₁⟩
        have hsemicolon : Shadows false s₁ t₁ expectSemicolon expectSemicolon Agree := by
          rw [← bind_pure expectSemicolon]
          exact .expectSemicolon fun _ => .pure rfl
        refine (Shadows.recover composes_grows.expectSemicolon hsemicolon).bindLoud
          composes_grows.expectSemicolon.recover (fun _ => .pure) fun _ _ s₂ t₂ hle₂ _ => ?_
        exact .pure ⟨rfl, by omega⟩
      · exact shadows_invalidStatement
    · rw [hs.joint, hs.first]
      exact shadows_invalidStatement
  grows := composes_grows.sortStatement

theorem shadows_sortProcedure : Shadows false s t sortProcedure sortProcedure Agree :=
  .previous (shadows_procedureParts readsOption_sort readsRequest_sort _ (fun _ => .requestUnless)
    fun _ _ _ => shadows_requestUnless)

theorem shadows_columnPass (names : List String) :
    Shadows true s t (columnPass names) (columnPass names) (Pass.Both t Agree Agree) := by
  unfold columnPass
  refine .peek (.twin fun ht => ?_)
  rcases ht.level_or_split with hl | hs
  · rw [hl.next.name?]
    cases hname : s.next.name? with
    | none => exact .pure rfl
    | some name =>
      refine .nextIsAssign hl ?_
      split
      · exact .pure rfl
      · have hlt := ht.size_step (isInner_of_name hname).2
        exact .advance hl fun _ => .pure ⟨rfl, hlt⟩
  · rw [hs.joint_name?, hs.first_name?]
    exact .pure rfl

theorem shadows_meansItem (read : Option DatasetRef × List (Statistic × List String)) :
    Shadows true s t (meansItem read) (meansItem read) (AgreeBehind t) := by
  by_cases hk : s.next.kind = .keyword .ELSEIF ∨ s.next.kind = .endOfInput
  · refine .vacuous fun a s' ha => ?_
    rw [meansItem, out_bind_of_ok (out_advance s)] at ha
    rcases hk with hk | hk <;> rw [hk] at ha <;> cases ha
  refine .read (not_or.mp hk) fun hl hlt => .check (by simp) ?_
  rw [hl.next.kind]
  split
  · refine shadows_datasetOption.bind ?_
    rintro _ out s₁ t₁ hle ⟨rfl, hlt₁⟩
    exact .pure ⟨rfl, by omega⟩
  · split
    · exact .throw
    · refine .expectSymbol fun _ _ hlt₁ => ?_
      refine (Shadows.loop fun names s' t' _ => shadows_columnPass names).bind ?_
      rintro _ names s₂ t₂ hle₂ rfl
      split
      · exact .peek .throw
      · exact .pure ⟨rfl, by omega⟩

theorem shadows_meansOutput : Shadows true s t meansOutput meansOutput Agree := by
  rw [meansOutput_eq]
  refine (Shadows.list fun read s' t' _ => shadows_meansItem read).bind ?_
  rintro _ ⟨out, columns⟩ s₁ t₁ hle rfl
  refine .peek (.expectSemicolon fun _ => ?_)
  cases out with
  | some out => exact .pure rfl
  | none => exact .throw

theorem readsOption_means : ReadsOption meansOption where
  refuses request u assigned s hu := by
    unfold meansOption
    rcases hu with hk | hk <;> rw [hk] <;> exact ⟨_, rfl⟩
  shadows request u v assigned s t h hassign := by
    unfold meansOption
    rw [h.kind]
    split
    · exact shadows_datasetOption.bind fun _ _ _ _ _ h => .pure (by rw [h.1])
    · split
      · exact .throw
      · split
        · exact .pure rfl
        · exact .pure rfl
  grows := composes_grows.meansOption

theorem readsRequest_means : ReadsRequest meansStatement where
  shadows request s t := by
    unfold meansStatement
    refine .peek (.twin fun ht => ?_)
    rcases ht.level_or_split with hl | hs
    · rw [hl.next.kind]
      split <;> try rename_i hk
      · refine .read (by simp [hk]) fun _ hlt => shadows_nameList.bind ?_
        rintro _ vars s₁ t₁ hle ⟨rfl, hlt₁⟩
        exact .pure ⟨rfl, by omega⟩
      · refine .read (by simp [hk]) fun _ hlt => shadows_meansOutput.bind ?_
        rintro _ output s₁ t₁ hle rfl
        exact .pure ⟨rfl, by omega⟩
      · exact shadows_invalidStatement
    · rw [hs.joint, hs.first]
      exact shadows_invalidStatement
  grows := composes_grows.meansStatement

theorem shadows_meansProcedure : Shadows false s t meansProcedure meansProcedure Agree :=
  .previous (shadows_procedureParts readsOption_means readsRequest_means _ (fun _ => .requestUnless)
    fun _ _ _ => shadows_requestUnless)

theorem shadows_obsOption (hk : s.next.kind = .symbol .assign) :
    Shadows true s t obsOption obsOption Agree := by
  unfold obsOption
  refine .read (by simp [hk]) fun _ _ => .advanceOr (fun hjoint => ?_) fun hl => ?_
  · rw [hjoint]
    rintro a s' ⟨⟩
  rw [hl.next.kind]
  split
  · split
    · exact .pure rfl
    · exact .throw
  · exact .throw

theorem readsOption_print : ReadsOption printOption where
  refuses request u assigned s hu := by
    unfold printOption
    rcases hu with hk | hk <;> rw [hk] <;> cases assigned <;> exact ⟨_, rfl⟩
  shadows request u v assigned s t h hassign := by
    unfold printOption
    rw [h.kind]
    split
    · exact shadows_datasetOption.bind fun _ _ _ _ _ h => .pure (by rw [h.1])
    · exact (shadows_obsOption (hassign rfl)).bind fun _ _ _ _ _ h => .pure (by rw [h])
    · exact .pure rfl
    · exact .throw
  grows := composes_grows.printOption

theorem readsRequest_print : ReadsRequest printStatement where
  shadows request s t := by
    unfold printStatement
    refine .peek (.twin fun ht => ?_)
    rcases ht.level_or_split with hl | hs
    · rw [hl.next.kind]
      split <;> try rename_i hk
      · refine .read (by simp [hk]) fun _ hlt => shadows_nameList.bind ?_
        rintro _ names s₁ t₁ hle ⟨rfl, hlt₁⟩
        exact .pure ⟨rfl, by omega⟩
      · exact shadows_invalidStatement
    · rw [hs.joint, hs.first]
      exact shadows_invalidStatement
  grows := composes_grows.printStatement

theorem shadows_printProcedure : Shadows false s t printProcedure printProcedure Agree :=
  shadows_procedureParts readsOption_print readsRequest_print _ (fun _ => .pure)
    fun _ _ _ => .pure rfl

theorem readsOption_freq : ReadsOption freqOption where
  refuses request u assigned s hu := by
    unfold freqOption
    rcases hu with hk | hk <;> rw [hk] <;> cases assigned <;> exact ⟨_, rfl⟩
  shadows request u v assigned s t h hassign := by
    unfold freqOption
    rw [h.kind]
    split
    · exact shadows_datasetOption.bind fun _ _ _ _ _ h => .pure (by rw [h.1])
    · exact .throw
  grows := composes_grows.freqOption

theorem readsRequest_freq : ReadsRequest freqStatement where
  shadows request s t := by
    unfold freqStatement
    refine .peek (.twin fun ht => ?_)
    rcases ht.level_or_split with hl | hs
    · rw [hl.next.kind]
      split <;> try rename_i hk
      · refine .read (by simp [hk]) fun _ hlt => shadows_nameList.bind ?_
        rintro _ names s₁ t₁ hle ⟨rfl, hlt₁⟩
        exact .pure ⟨rfl, by omega⟩
      · exact shadows_invalidStatement
    · rw [hs.joint, hs.first]
      exact shadows_invalidStatement
  grows := composes_grows.freqStatement

theorem shadows_freqProcedure : Shadows false s t freqProcedure freqProcedure Agree :=
  shadows_procedureParts readsOption_freq readsRequest_freq _ (fun _ => .pure)
    fun _ _ _ => .pure rfl

/-! ### Steps that are passed over -/

/-- A pass that reads the words of `ELSE IF` one by one, and any other token alike from both
states. -/
structure Skips (pass : Unit → Parser (Pass Unit Unit)) : Prop where
  word : ∀ s c, s.ahead ≠ [] → s.next.kind = .keyword c → c = .ELSEIF ∨ c = .ELSE ∨ c = .IF →
    out (pass ()) s = (.ok (.again ()), s.step)
  alike : ∀ s t, Level s t → Shadows true s t (pass ()) (pass ()) (Pass.Both t Agree Agree)

/-- A loop makes two passes over parted words. -/
theorem shadows_skip {pass : Unit → Parser (Pass Unit Unit)} (h : Skips pass) {n m : Nat}
    (hm : t.size < m) :
    Shadows true s t (repeatUpTo pass n ()) (repeatUpTo pass m ()) Agree := by
  induction n generalizing m s t with
  | zero => exact .throw
  | succ n ih =>
    obtain ⟨m, rfl⟩ : ∃ j, m = j + 1 := ⟨m - 1, by omega⟩
    refine .twin fun ht => ?_
    rcases ht.level_or_split with hl | hs
    · rw [repeatUpTo_succ, repeatUpTo_succ]
      exact (h.alike s t hl).bind fun r r' s₁ t₁ _ hr => .rest hr fun a b _ hlt => ih (by omega)
    · obtain ⟨hlt, hlt₁⟩ := hs.size
      obtain ⟨m, rfl⟩ : ∃ j, m = j + 1 := ⟨m - 1, by omega⟩
      have hend := ht.eof.kind.trans ht.isEnd
      have hjoint := h.word s _ (ne_nil_of_kind ht.isEnd (by simp [hs.joint])) hs.joint (.inl rfl)
      have hfirst := h.word t _ (ne_nil_of_kind hend (by simp [hs.first])) hs.first
        (.inr (.inl rfl))
      have hsecond := h.word t.step _ (ne_nil_of_kind hend (ne_of_eq_of_ne hs.second (by simp)))
        hs.second (.inr (.inr rfl))
      refine .of_out (u := s.step) (v := t.step.step) (m := repeatUpTo pass n ())
        (n := repeatUpTo pass m ()) ?_ ?_ rfl rfl (by omega) (fun _ => hs.rest) (ih (by omega))
      · rw [repeatUpTo_succ, out_bind_of_ok hjoint]
        rfl
      · rw [repeatUpTo_succ, out_bind_of_ok hfirst, Pass.rest, repeatUpTo_succ,
          out_bind_of_ok hsecond]
        rfl

theorem skips_sqlPass : Skips sqlPass where
  word s c hne hk hc := by
    have hcheck : out (checkSymbol .semicolon) s.step = _ := out_check _ _
    unfold sqlPass
    rw [out_bind_of_ok (out_atEnd s), if_neg (by simpa using hne), out_bind_of_ok (out_advance s),
      out_bind_of_ok hcheck, hk]
    rcases hc with rfl | rfl | rfl <;> rfl
  alike s t hl := by
    unfold sqlPass
    refine .twin fun ht => .atEnd ?_
    split
    · exact .pure rfl
    · rename_i hend
      have hne : t.ahead ≠ [] := by simpa [← ht.ahead.isEmpty] using hend
      have hlt := size_step_of_pos (List.length_pos_iff.mpr hne)
      refine .advance hl fun _ => .check (by simp) ?_
      rw [hl.next.kind]
      split
      · rename_i hquit
        have hsemicolon : s.step.next.kind = .symbol .semicolon := by
          simpa using (Bool.and_eq_true_iff.mp hquit).2
        exact .read (by simp [hsemicolon]) fun _ _ => .pure rfl
      · exact .pure ⟨rfl, hlt⟩

theorem skips_skipPass : Skips skipPass where
  word s c hne hk hc := by
    have hboundary : s.isBoundary = false := by
      unfold State.isBoundary
      rw [hk]
      rcases hc with rfl | rfl | rfl <;> rfl
    unfold skipPass
    rw [out_bind_of_ok (out_atEnd s), out_bind_of_ok (out_atStepBoundary s), hboundary,
      if_neg (by simpa using hne), out_bind_of_ok (out_advance s)]
    rfl
  alike s t hl := by
    unfold skipPass
    refine .twin fun ht => .atEnd (.atStepBoundary ?_)
    split
    · exact .pure rfl
    · rename_i hend
      have hne : t.ahead ≠ [] := by
        simp only [← ht.ahead.isEmpty, Bool.or_eq_true, not_or] at hend
        simpa using hend.1
      have hlt := size_step_of_pos (List.length_pos_iff.mpr hne)
      exact .advance hl fun _ => .pure ⟨rfl, hlt⟩

theorem shadows_skipSql : Shadows true s t skipSql skipSql Agree :=
  .get (shadows_skip skips_sqlPass (Nat.lt_succ_self _))

theorem shadows_skipStep : Shadows true s t skipStep skipStep Agree :=
  .get (shadows_skip skips_skipPass (Nat.lt_succ_self _))

theorem shadows_procedure (hk : s.next.kind = .keyword .PROC) :
    Shadows false s t procedure procedure (AgreeBehind t) := by
  unfold procedure
  refine .read (by simp [hk]) fun _ hlt => .behind (.advanceOr (fun hjoint => ?_) fun hl => ?_) hlt
  · unfold Token.name?
    rw [hjoint]
    rintro a s' ⟨⟩
  rw [hl.next.kind, hl.next.name?]
  split
  · exact shadows_sortProcedure
  · exact shadows_meansProcedure
  · exact shadows_printProcedure
  · exact shadows_freqProcedure
  · exact shadows_skipSql.bind fun _ _ _ _ _ _ => .pure rfl
  · split
    · exact .throw
    · exact shadows_skipStep.bind fun _ _ _ _ _ _ =>
        shadows_finishStep.bind fun _ _ _ _ _ _ => .pure rfl

end StepLang.Parser
