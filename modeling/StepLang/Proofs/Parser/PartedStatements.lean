import StepLang.Proofs.DataStep.NestedElse
import StepLang.Proofs.Parser.PartedExpressions
import StepLang.Proofs.Parser.StatementProgress

/-! # Statements among parted words

Where the words of `ELSE IF` are parted, an IF statement is read as the ELSE of the one before it.
All other statements of a DATA step are read as they are.
-/

namespace StepLang.Parser

open DataStep (Fragment Nests)
open DataStep.Fragment (one all others)

variable {α β : Type} {k : Bool} {s t : State} {p q : Parser StepStatement}

/-! ### Statements without others inside -/

theorem shadows_assignment : Shadows true s t assignment assignment (AgreeBehind t) := by
  refine .expectName fun name _ _ hlt => .expectSymbol fun _ _ hlt₁ => ?_
  refine shadows_expression.bind ?_
  rintro _ value s₂ t₂ hle ⟨rfl, hlt₂⟩
  exact .expectSemicolon fun hlt₃ => .pure ⟨rfl, by omega⟩

theorem shadows_elementAssignment (hk : s.second.kind ≠ .endOfInput) :
    Shadows true s t elementAssignment elementAssignment (AgreeBehind t) := by
  refine .expectName fun array _ _ hlt => ?_
  have hopening : s.step.next.kind ≠ .endOfInput := hk
  refine (shadows_subscript (fun _ _ _ => shadows_expression) (Nat.le_refl _) hopening).bind ?_
  rintro _ index s₁ t₁ hle₁ ⟨rfl, hlt₁⟩
  refine .expectSymbol fun _ _ hlt₂ => shadows_expression.bind ?_
  rintro _ value s₃ t₃ hle₃ ⟨rfl, hlt₃⟩
  exact .expectSemicolon fun hlt₄ => .pure ⟨rfl, by omega⟩

theorem shadows_arraySize : Shadows true s t arraySize arraySize Agree := by
  refine .acceptSymbol (fun _ _ => .pure rfl) (.advanceOr (fun hjoint => ?_) fun hl => ?_)
  · rw [hjoint]
    rintro a s' ⟨⟩
  rw [hl.next.kind]
  split
  · split
    · exact .pure rfl
    · exact .throw
  · exact .throw

theorem shadows_elementKind : Shadows true s t elementKind elementKind Agree := by
  refine .acceptSymbol (fun hl hlt => .peek (.twin fun ht => ?_)) (.pure rfl)
  rcases ht.level_or_split with hl | hs
  · rw [hl.next.kind]
    split
    · exact .advance hl fun _ => .pure rfl
    · exact .pure rfl
  · rw [hs.joint, hs.first]
    exact .pure rfl

theorem shadows_arrayVariables {pos pos' : Position} {name : String} {size : ArraySize}
    {listed : List String} : Shadows true s t
      (arrayStatement.liftExcept (arrayVariables pos name size listed))
      (arrayStatement.liftExcept (arrayVariables pos' name size listed)) Agree := by
  unfold arrayVariables
  cases size with
  | fixed n =>
    dsimp only
    split
    · exact .pure rfl
    · split
      · exact .pure rfl
      · exact .throw
  | star =>
    dsimp only
    split
    · exact .throw
    · exact .pure rfl

theorem shadows_arrayStatement (hk : s.next.kind = .keyword .ARRAY) :
    Shadows true s t arrayStatement arrayStatement (AgreeBehind t) := by
  refine .read (by simp [hk]) fun _ hlt => .expectName fun name _ _ hlt₁ => ?_
  refine .advanceOr (fun hjoint => ?_) fun hl => ?_
  · rw [hjoint]
    rintro a s' ⟨⟩
  have hle := size_step_le t.step.step
  rw [hl.next.kind]
  cases closing? s.step.step.next.kind with
  | none => exact .previous .throw
  | some close =>
    refine shadows_arraySize.bind ?_
    rintro _ size s₃ t₃ hle₃ rfl
    refine .expectSymbol fun _ _ hlt₄ => shadows_elementKind.bind ?_
    rintro _ kind s₅ t₅ hle₅ rfl
    refine shadows_nameList.bind ?_
    rintro _ names s₆ t₆ hle₆ ⟨rfl, hlt₆⟩
    refine shadows_arrayVariables.bind ?_
    rintro _ vars s₇ t₇ hle₇ rfl
    have hlt₇ : t₇.size < t.size := by omega
    exact .modifyArrays (Text.upper name :: ·) (.pure ⟨rfl, hlt₇⟩)

theorem shadows_literal : Shadows true s t literal? literal? fun a b _ t' =>
    b = a ∧ (a.isSome = true → t'.size < t.size) := by
  unfold literal?
  refine .peek (.twin fun ht => ?_)
  rcases ht.level_or_split with hl | hs
  · rw [hl.next.kind]
    split
    · rename_i hk
      exact .read (by simp [hk]) fun _ hlt => .pure ⟨rfl, fun _ => hlt⟩
    · rename_i hk
      exact .read (by simp [hk]) fun _ hlt => .pure ⟨rfl, fun _ => hlt⟩
    · rename_i hk
      exact .read (by simp [hk]) fun _ hlt => .pure ⟨rfl, fun _ => hlt⟩
    · rename_i hk
      refine .peekNext ?_
      have hsecond (s : State) : s.second = s.step.next := rfl
      rw [hsecond, hsecond]
      rcases hl.rest.level_or_split with hl' | hs
      · rw [hl'.next.kind]
        split
        · rename_i x hk'
          refine .read (by simp [hk]) fun _ hlt => .read (by simp [hk']) fun _ hlt₁ => ?_
          exact .pure ⟨rfl, fun _ => by omega⟩
        · exact .throw
      · rw [hs.joint]
        exact .throw
    · exact .pure ⟨rfl, by simp⟩
  · rw [hs.joint, hs.first]
    exact .pure ⟨rfl, by simp⟩

theorem shadows_retainItem (read : List RetainItem × List RetainItem) :
    Shadows true s t (retainItem read) (retainItem read) (AgreeBehind t) := by
  refine shadows_literal.bind ?_
  rintro _ r s₁ t₁ hle ⟨rfl, hlt⟩
  cases r with
  | some initial => exact .pure ⟨rfl, hlt rfl⟩
  | none =>
    refine shadows_nameOrRange.bind ?_
    rintro _ names s₂ t₂ hle₂ ⟨rfl, hlt₂⟩
    exact .pure ⟨rfl, by omega⟩

theorem shadows_retainStatement (hk : s.next.kind = .keyword .RETAIN) :
    Shadows true s t retainStatement retainStatement (AgreeBehind t) := by
  rw [retainStatement_eq]
  refine .read (by simp [hk]) fun _ hlt => ?_
  refine (Shadows.list fun read s' t' _ => shadows_retainItem read).bind ?_
  rintro _ read s₁ t₁ hle rfl
  exact .expectSemicolon fun hlt₂ => .pure ⟨rfl, by omega⟩

theorem shadows_lengthItem (read : List LengthItem × List String) :
    Shadows true s t (lengthItem read) (lengthItem read) (AgreeBehind t) := by
  refine Shadows.acceptOrNot.bind ?_
  rintro _ character s₁ t₁ hle rfl
  refine .peek (.twin fun ht => ?_)
  rcases ht.level_or_split with hl | hs
  · rw [hl.next.kind]
    split
    · rename_i x hk
      refine .read (by simp [hk]) fun _ hlt => ?_
      rw [hl.next.lexeme]
      split
      · exact .throw
      · split
        · exact .throw
        · exact .pure ⟨rfl, by omega⟩
    · refine shadows_nameOrRange.bind ?_
      rintro _ names s₂ t₂ hle₂ ⟨rfl, hlt₂⟩
      exact .pure ⟨rfl, by omega⟩
  · rw [hs.joint, hs.first]
    refine shadows_nameOrRange.bind ?_
    rintro _ names s₂ t₂ hle₂ ⟨rfl, hlt₂⟩
    exact .pure ⟨rfl, by omega⟩

theorem shadows_lengthStatement (hk : s.next.kind = .keyword .LENGTH) :
    Shadows true s t lengthStatement lengthStatement (AgreeBehind t) := by
  rw [lengthStatement_eq]
  refine .read (by simp [hk]) fun _ hlt => ?_
  refine (Shadows.list fun read s' t' _ => shadows_lengthItem read).bind ?_
  rintro _ read s₁ t₁ hle rfl
  dsimp only
  split
  · exact .expectSemicolon fun hlt₂ => .pure ⟨rfl, by omega⟩
  · exact .peek .throw

theorem shadows_inputItem (fields : List InputField) :
    Shadows true s t (inputItem fields) (inputItem fields) (AgreeBehind t) := by
  refine .acceptSymbol (fun _ hlt => ?_) ?_
  · cases markCharacter fields with
    | some marked => exact .pure ⟨rfl, hlt⟩
    | none => exact .previous .throw
  · exact .expectName fun name _ _ hlt => .pure ⟨rfl, hlt⟩

theorem shadows_inputStatement (hk : s.next.kind = .keyword .INPUT) :
    Shadows true s t inputStatement inputStatement (AgreeBehind t) := by
  rw [inputStatement_eq]
  refine .read (by simp [hk]) fun _ hlt => ?_
  refine (Shadows.list fun fields s' t' _ => shadows_inputItem fields).bind ?_
  rintro _ fields s₁ t₁ hle rfl
  exact .expectSemicolon fun hlt₂ => .pure ⟨rfl, by omega⟩

theorem shadows_dataLinesStatement (hk : s.next.kind = .keyword .DATALINES) :
    Shadows true s t dataLinesStatement dataLinesStatement (AgreeBehind t) := by
  refine .read (by simp [hk]) fun _ hlt => .expectSemicolon fun hlt₁ => ?_
  have hle := size_step_le t.step.step
  refine .advanceOr (fun hjoint => ?_) fun hl => ?_
  · rw [hjoint]
    rintro a s' ⟨⟩
  rw [hl.next.kind]
  split
  · exact .expectSemicolon fun hlt₃ => .pure ⟨rfl, by omega⟩
  · exact .throw

theorem shadows_keywordStatement {rest rest' : Parser StepStatement}
    (hk : s.next.kind ≠ .keyword .ELSEIF ∧ s.next.kind ≠ .endOfInput)
    (h : Shadows true s.step t.step rest rest' Agree) :
    Shadows true s t (keywordStatement rest) (keywordStatement rest') (AgreeBehind t) :=
  .read hk fun _ hlt => h.behind hlt

/-! ### Branches -/

/-- Of two statements the second is the first one with some words parted. It was read behind the
state. -/
abbrev NestsBehind (t : State) (a b : StepStatement) (_ t' : State) : Prop :=
  Nests (one a) (one b) ∧ t'.size < t.size

theorem Shadows.getSecond {R : α → α → State → State → Prop} {p : Parser α} {g : State → Parser α}
    (h : Shadows k s t p (g t) R) : Shadows k s t p (MonadState.get >>= g) R := h

theorem Shadows.nests (h : Shadows true s t p q (AgreeBehind t)) :
    Shadows false s t p q (NestsBehind t) :=
  h.loud.mono fun a _ _ _ _ hab => ⟨hab.1 ▸ .refl (one a), hab.2⟩

/-- The parsers read statements of which the second nests, wherever fewer tokens are ahead of the
second one. -/
def ShadowsStatement (n : Nat) (p q : Parser StepStatement) : Prop :=
  ∀ s t, t.size < n → Shadows false s t p q (NestsBehind t)

def afterIf (statement : Parser StepStatement) : Parser StepStatement := do
  let condition ← expression
  if ← accept (.symbol .semicolon) then return .subset condition
  else
    expectKeyword .THEN "THEN"
    let consequence ← statement
    return .branch condition consequence
      (← alternative statement ((← get).ahead.length + 1))

theorem ifStatement_eq (statement : Parser StepStatement) : ifStatement statement = (do
    let _ ← advance
    afterIf statement) := rfl

theorem out_statementBody_if (hk : s.next.kind = .keyword .IF) :
    out (statementBody p) s = out (ifStatement p) s := by
  unfold statementBody
  rw [out_bind_of_ok (out_peek s), hk]

theorem out_statementUpTo_if (hk : s.next.kind = .keyword .IF) (depth : Nat) :
    out (statementUpTo (depth + 1)) s = out (afterIf (statementUpTo depth)) s.step := by
  have hname : s.next.name? = none := by
    unfold Token.name?
    rw [hk]
    rfl
  rw [statementUpTo, out_bind_of_ok (out_peek s), hname]
  dsimp only
  rw [out_statementBody_if hk, ifStatement_eq, out_bind_of_ok (out_advance s)]

theorem out_alternative_joint (hk : s.next.kind = .keyword .ELSEIF) (bound : Nat) :
    out (alternative p (bound + 1)) s = out (do
      let condition ← expression
      expectKeyword .THEN "THEN"
      let consequence ← p
      return .elseIf condition consequence (← alternative p bound)) s.step := by
  have haccept := out_accept (.keyword .ELSEIF) s
  rw [hk] at haccept
  rw [alternative, out_bind_of_ok haccept, if_pos rfl]

/-- Where `ELSE IF` is parted, the parser behind `ELSE` reads an IF statement. -/
theorem out_alternative_parted (hfirst : s.next.kind = .keyword .ELSE)
    (hsecond : s.second.kind = .keyword .IF) (depth bound : Nat) :
    out (alternative (statementUpTo (depth + 1)) (bound + 1)) s =
      out (do return .otherwise (← afterIf (statementUpTo depth))) s.step.step := by
  have hsecond : s.step.next.kind = .keyword .IF := hsecond
  have hjoint := out_accept (.keyword .ELSEIF) s
  have helse := out_accept (.keyword .ELSE) s
  rw [hfirst] at hjoint helse
  rw [alternative, out_bind_of_ok hjoint, if_neg Bool.false_ne_true, out_bind_of_ok helse,
    if_pos rfl, out_bind, out_statementUpTo_if hsecond, ← out_bind]

theorem grows_alternative (d m : Nat) : Grows (alternative (statementUpTo d) m) :=
  composes_grows.alternative (composes_grows.statementUpTo d) m

/-- Behind the condition of an `ELSE IF` stands `THEN`, and so the IF statement that is nested when
the words are parted is not one that ends there. -/
theorem shadows_nested {d d' m : Nat}
    (hp : ∀ d', ShadowsStatement d' (statementUpTo d) (statementUpTo d')) (hd : t.size < d')
    (ih : ∀ s' t', t'.size ≤ t.size → Shadows false s' t' (alternative (statementUpTo d) m)
      (alternative (statementUpTo d') (t'.size + 1)) fun a b _ _ => Nests (others a) (others b)) :
    Shadows false s t
      (do
        let condition ← expression
        expectKeyword .THEN "THEN"
        let consequence ← statementUpTo d
        return .elseIf condition consequence (← alternative (statementUpTo d) m))
      (do return .otherwise (← afterIf (statementUpTo d')))
      fun a b _ _ => Nests (others a) (others b) := by
  simp only [afterIf, bind_assoc]
  refine shadows_expression.bind ?_
  rintro _ condition s₁ t₁ hle₁ ⟨rfl, hlt₁⟩
  refine .needKeyword fun hthen => .twin fun ht => ?_
  have hl := ht.level (by simp [hthen])
  refine .refuse (by simp [hl.next.kind, hthen]) ?_
  simp only [Bool.false_eq_true, if_false, bind_assoc]
  refine .expectKeyword (by simp) fun hlt₂ => ?_
  refine (hp d' _ _ (by omega)).bindLoud (composes_grows.statementUpTo d)
    (fun _ => (grows_alternative d m).bind fun _ => .pure) ?_
  rintro consequence consequence' s₃ t₃ hle₃ ⟨hnests, hlt₃⟩
  refine .getSecond ((ih s₃ t₃ (by omega)).bindLoud (grows_alternative d m)
    (fun _ => .pure) fun o o' s₄ t₄ _ ho => ?_)
  exact .pure (.nested _ hnests ho)

theorem shadows_alternative {d d' m m' : Nat}
    (hp : ∀ d', ShadowsStatement d' (statementUpTo d) (statementUpTo d'))
    (hd : t.size < d') (hm : t.size < m') :
    Shadows false s t (alternative (statementUpTo d) m) (alternative (statementUpTo d') m')
      fun a b _ _ => Nests (others a) (others b) := by
  induction m generalizing d' m' s t with
  | zero => exact .throw
  | succ m ih =>
    obtain ⟨m', rfl⟩ : ∃ j, m' = j + 1 := ⟨m' - 1, by omega⟩
    refine .twin fun ht => ?_
    rcases ht.level_or_split with hl | hs
    · unfold alternative
      refine .acceptAlike hl (by simp) (fun _ hlt => ?_) fun _ => ?_
      · refine shadows_expression.bind ?_
        rintro _ condition s₁ t₁ hle₁ ⟨rfl, hlt₁⟩
        refine .expectKeyword (by simp) fun hlt₂ => ?_
        refine (hp d' _ _ (by omega)).bindLoud (composes_grows.statementUpTo d)
          (fun _ => (grows_alternative d m).bind fun _ => .pure) ?_
        rintro consequence consequence' s₃ t₃ hle₃ ⟨hnests, hlt₃⟩
        refine (ih (by omega) (by omega)).bindLoud (grows_alternative d m)
          (fun _ => .pure) fun o o' _ _ _ ho => ?_
        exact .pure (.elseIf _ hnests ho)
      · refine .acceptAlike hl (by simp) (fun _ hlt => ?_) fun _ => .pure .none
        refine (hp d' _ _ (by omega)).bindLoud (composes_grows.statementUpTo d) (fun _ => .pure) ?_
        exact fun _ _ _ _ _ h => .pure (.otherwise h.1)
    · obtain ⟨d', rfl⟩ : ∃ j, d' = j + 1 := ⟨d' - 1, by omega⟩
      obtain ⟨hlt, hlt₁⟩ := hs.size
      refine .of_out (out_alternative_joint hs.joint m)
        (out_alternative_parted hs.first hs.second d' m') rfl rfl (by omega) (fun _ => hs.rest) ?_
      exact shadows_nested hp (by omega) fun s' t' hle => ih (by omega) (Nat.lt_succ_self _)

theorem shadows_ifStatement {d d' : Nat}
    (hp : ∀ d', ShadowsStatement d' (statementUpTo d) (statementUpTo d')) (hd : t.size ≤ d')
    (hk : s.next.kind = .keyword .IF) :
    Shadows false s t (ifStatement (statementUpTo d)) (ifStatement (statementUpTo d'))
      (NestsBehind t) := by
  unfold ifStatement
  refine .read (by simp [hk]) fun _ hlt => shadows_expression.bind ?_
  rintro _ condition s₁ t₁ hle₁ ⟨rfl, hlt₁⟩
  refine .acceptSymbol (fun _ hlt₂ => .pure ⟨.refl _, by omega⟩) ?_
  refine .expectKeyword (by simp) fun hlt₂ => ?_
  refine (hp d' _ _ (by omega)).bindLoud (composes_grows.statementUpTo d)
    (composes_grows.alternatives (composes_grows.statementUpTo d) condition) ?_
  rintro consequence consequence' s₃ t₃ hle₃ ⟨hnests, hlt₃⟩
  refine .get ((shadows_alternative hp (by omega) (Nat.lt_succ_self _)).bindLoud
    (grows_alternative d _) (fun _ => .pure) fun o o' s₄ t₄ hle₄ ho => ?_)
  exact .pure ⟨.branch _ hnests ho, by omega⟩

/-! ### Groups -/

theorem Shadows.atStepBoundary {f g : Bool → Parser β} {T : β → β → State → State → Prop}
    (h : Shadows k s t (f s.isBoundary) (g s.isBoundary) T) :
    Shadows k s t (atStepBoundary >>= f) (atStepBoundary >>= g) T := by
  refine twin fun ht => look out_atStepBoundary out_atStepBoundary ?_
  have heq : t.isBoundary = s.isBoundary := by
    unfold State.isBoundary
    rcases ht.level_or_split with hl | hs
    · rw [hl.next.kind, hl.second_eq (by simp)]
    · rw [hs.joint, hs.first]
      rfl
  rwa [heq]

variable {n : Nat}

theorem shadows_doBody (hgrows : Grows p) (hp : ShadowsStatement n p q) (hn : t.size < n) :
    Shadows false s t (doBody p) (doBody q) fun a b _ _ => Nests (all a) (all b) := by
  rw [doBody_eq, doBody_eq]
  refine .repeated (I := fun a b _ _ => Nests (all a) (all b))
    (.inr (composes_grows.doPass hgrows)) .nil ?_
  intro body body' s' t' hle hbody
  unfold doPass
  refine .accept (by simp) (by simp) (fun _ _ _ => .expectSemicolon fun _ => .pure hbody)
    fun _ => ?_
  refine .atEnd (.atStepBoundary ?_)
  split
  · exact .peek .throw
  · refine .acceptSymbol (fun _ hlt => .pure ⟨hbody, hlt⟩) ?_
    refine (Shadows.recover hgrows (hp s' t' (by omega))).bindLoud hgrows.recover
      (fun r => by cases r <;> exact .pure) ?_
    rintro _ _ s₁ t₁ _ ⟨statement, statement', rfl, rfl, hnests, hlt₁⟩
    exact .pure ⟨hbody.append (.cons hnests .nil), hlt₁⟩

theorem shadows_conditionLoop {test : Expression → LoopTest} (hgrows : Grows p)
    (hp : ShadowsStatement n p q) (hn : t.size ≤ n)
    (hk : s.next.kind ≠ .keyword .ELSEIF ∧ s.next.kind ≠ .endOfInput) :
    Shadows false s t (conditionLoop p test) (conditionLoop q test) (NestsBehind t) := by
  unfold conditionLoop
  refine .read hk fun _ hlt => .expectSymbol fun _ _ hlt₁ => shadows_expression.bind ?_
  rintro _ condition s₂ t₂ hle₂ ⟨rfl, hlt₂⟩
  refine .expectSymbol fun _ _ hlt₃ => .expectSemicolon fun hlt₄ => ?_
  refine (shadows_doBody hgrows hp (by omega)).bindLoud (composes_grows.doBody hgrows)
    (fun _ => .pure) ?_
  exact fun body body' s₅ t₅ hle₅ h => .pure ⟨.loop _ h, by omega⟩

theorem shadows_rangeLoop (hgrows : Grows p) (hp : ShadowsStatement n p q) (hn : t.size ≤ n) :
    Shadows false s t (rangeLoop p) (rangeLoop q) (NestsBehind t) := by
  unfold rangeLoop
  refine .expectName fun index _ _ hlt => .expectSymbol fun _ _ hlt₁ => shadows_expression.bind ?_
  rintro _ start s₂ t₂ hle₂ ⟨rfl, hlt₂⟩
  refine .expectKeyword (by simp) fun hlt₃ => shadows_expression.bind ?_
  rintro _ stop s₄ t₄ hle₄ ⟨rfl, hlt₄⟩
  have hrest {s₅ t₅ : State} {increment : Option Expression} (hle₅ : t₅.size ≤ t₄.size) :
      Shadows false s₅ t₅
        (do
          expectSemicolon
          return StepStatement.iterate index start stop increment (← doBody p))
        (do
          expectSemicolon
          return StepStatement.iterate index start stop increment (← doBody q))
        (NestsBehind t) := by
    refine .expectSemicolon fun hlt₆ => ?_
    refine (shadows_doBody hgrows hp (by omega)).bindLoud (composes_grows.doBody hgrows)
      (fun _ => .pure) ?_
    exact fun body body' s₇ t₇ hle₇ h => .pure ⟨.iterate _ _ _ _ h, by omega⟩
  refine .accept (by simp) (by simp) (fun _ _ hlt₅ => ?_) fun _ => hrest (Nat.le_refl _)
  simp only [if_true, map_eq_pure_bind, bind_assoc, pure_bind]
  refine shadows_expression.bind ?_
  rintro _ increment s₆ t₆ hle₆ ⟨rfl, hlt₆⟩
  exact hrest (by omega)

theorem shadows_doStatement (hgrows : Grows p) (hp : ShadowsStatement n p q) (hn : t.size ≤ n)
    (hk : s.next.kind = .keyword .DO) :
    Shadows false s t (doStatement p) (doStatement q) (NestsBehind t) := by
  unfold doStatement
  refine .read (by simp [hk]) fun _ hlt =>
    .acceptSymbol (fun _ hlt₁ => ?_) (.peek (.twin fun ht => ?_))
  · refine (shadows_doBody hgrows hp (by omega)).bindLoud (composes_grows.doBody hgrows)
      (fun _ => .pure) ?_
    exact fun body body' s₂ t₂ hle₂ h => .pure ⟨.block h, by omega⟩
  rcases ht.level_or_split with hl | hs
  · rw [hl.next.kind]
    split
    · rename_i hk
      exact (shadows_conditionLoop hgrows hp (by omega) (by simp [hk])).mono
        fun _ _ _ _ _ h => ⟨h.1, by omega⟩
    · rename_i hk
      exact (shadows_conditionLoop hgrows hp (by omega) (by simp [hk])).mono
        fun _ _ _ _ _ h => ⟨h.1, by omega⟩
    · exact (shadows_rangeLoop hgrows hp (by omega)).mono fun _ _ _ _ _ h => ⟨h.1, by omega⟩
  · rw [hs.joint, hs.first]
    exact (shadows_rangeLoop hgrows hp (by omega)).mono fun _ _ _ _ _ h => ⟨h.1, by omega⟩

/-! ### Any statement -/

theorem shadows_statementBody {d d' : Nat}
    (hp : ∀ d', ShadowsStatement d' (statementUpTo d) (statementUpTo d')) (hd : t.size ≤ d') :
    Shadows false s t (statementBody (statementUpTo d)) (statementBody (statementUpTo d'))
      (NestsBehind t) := by
  unfold statementBody
  refine .peek (.twin fun ht => ?_)
  rcases ht.level_or_split with hl | hs
  · rw [hl.next.kind]
    split <;> rename_i hk
    · exact .nests (shadows_keywordStatement (by simp [hk]) (.pure rfl))
    · refine .nests (shadows_keywordStatement (by simp [hk]) ?_)
      exact shadows_datasetList.bind fun _ _ _ _ _ h => .pure (by rw [h.1])
    · refine .nests (shadows_keywordStatement (by simp [hk]) ?_)
      exact shadows_datasetList.bind fun _ _ _ _ _ h => .pure (by rw [h.1])
    · refine .nests (shadows_keywordStatement (by simp [hk]) ?_)
      exact shadows_byList.bind fun _ _ _ _ _ h => .pure (by rw [h.1])
    · exact shadows_ifStatement hp hd hk
    · exact shadows_doStatement (composes_grows.statementUpTo d) (hp d') hd hk
    · exact .nests (shadows_arrayStatement hk)
    · refine .nests (shadows_keywordStatement (by simp [hk]) ?_)
      exact shadows_nameList.bind fun _ _ _ _ _ h => .pure (by rw [h.1])
    · refine .nests (shadows_keywordStatement (by simp [hk]) ?_)
      exact shadows_nameList.bind fun _ _ _ _ _ h => .pure (by rw [h.1])
    · exact .nests (shadows_retainStatement hk)
    · exact .nests (shadows_lengthStatement hk)
    · exact .nests (shadows_inputStatement hk)
    · exact .nests (shadows_dataLinesStatement hk)
    · refine .nests (shadows_keywordStatement (by simp [hk]) ?_)
      exact shadows_nameList.bind fun _ _ _ _ _ h => .pure (by rw [h.1])
    · exact .nests (shadows_keywordStatement (by simp [hk]) (.expectSemicolon fun _ => .pure rfl))
    · exact .nests (shadows_keywordStatement (by simp [hk]) (.expectSemicolon fun _ => .pure rfl))
    · exact .throw
    · exact .throw
  · rw [hs.joint]
    exact .throw

theorem Shadows.nextIsSubscript {name : String} {f g : Bool → Parser β}
    {T : β → β → State → State → Prop} (hl : Level s t)
    (h : ∀ b, (b = true → s.second.kind ≠ .endOfInput) → Shadows k s t (f b) (g b) T) :
    Shadows k s t (nextIsSubscript name >>= f) (nextIsSubscript name >>= g) T := by
  simp only [Parser.nextIsSubscript, bind_assoc]
  refine peekNext ?_
  have hsecond (s : State) : s.second = s.step.next := rfl
  rw [hsecond t]
  rcases hl.rest.level_or_split with hl' | hs
  · rw [hl'.next.kind, ← hsecond s]
    split <;> rename_i hk
    · exact h true fun _ => by simp [hk]
    · exact h true fun _ => by simp [hk]
    · exact isArray (h _ fun _ => by simp [hk])
    · exact h false (by simp)
  · rw [hs.first, hsecond s, hs.joint]
    exact h false (by simp)

theorem shadows_statementUpTo (d d' : Nat) :
    ShadowsStatement d' (statementUpTo d) (statementUpTo d') := by
  induction d generalizing d' with
  | zero => exact fun _ _ _ => .throw
  | succ d ih =>
    intro s t hd
    obtain ⟨d', rfl⟩ : ∃ j, d' = j + 1 := ⟨d' - 1, by omega⟩
    have hbody : Shadows false s t (statementBody (statementUpTo d))
        (statementBody (statementUpTo d')) (NestsBehind t) := shadows_statementBody ih (by omega)
    rw [statementUpTo, statementUpTo]
    refine .peek (.twin fun ht => ?_)
    rcases ht.level_or_split with hl | hs
    · rw [hl.next.name?]
      cases hname : s.next.name? with
      | none => exact hbody
      | some name =>
        refine .nextIsAssign hl ?_
        split
        · exact .nests shadows_assignment
        · refine .nextIsSubscript hl fun b hb => ?_
          cases b with
          | true => exact .nests (shadows_elementAssignment (hb rfl))
          | false => exact hbody
    · rw [hs.joint_name?, hs.first_name?]
      exact hbody

theorem shadows_stepStatement :
    Shadows false s t stepStatement stepStatement (NestsBehind t) :=
  .get (shadows_statementUpTo _ _ s t (Nat.lt_succ_self _))

end StepLang.Parser
