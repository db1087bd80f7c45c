import StepLang.Proofs.Parser.PartedPrograms
import StepLang.Proofs.Token.PartedWords
import StepLang.Session.Execution

/-! # Programs with nested ELSE statements

A statement of a program does the same in every session if some further branches of it are written
as nested statements. So a text does the same whether words `ELSE IF` in it are one token or two, if
no error is reported for the one token.
-/

namespace StepLang

open DataStep (Nests)
open DataStep.Fragment (one all)

theorem DataStep.Nests.single_eq {s s' : StepStatement} (h : Nests (one s) (one s')) :
    Action.single s = Action.single s' := by
  cases h <;> rfl

namespace Statement.Nests

variable {a b : Statement}

theorem action_eq (h : Statement.Nests a b) : Action.statement a = Action.statement b := by
  cases h with
  | refl => rfl
  | dataStep outputs h =>
    simp only [Action.statement, Action.dataStep, h.runStep_eq]
  | single h =>
    simp only [Action.statement]
    rw [h.single_eq]

end Statement.Nests

namespace Session

theorem execute_eq {statements statements' : List Statement}
    (h : List.Forall₂ Statement.Nests statements statements') (s : Session) :
    s.execute statements = s.execute statements' := by
  induction h generalizing s with
  | nil => rfl
  | cons hn _ ih =>
    unfold execute
    rw [hn.action_eq]
    simp only [ih]

/-- A text whose tokens are read without an error does the same with parted words. -/
theorem run_eq_of_parted {source source' : String} {tokens tokens' : List Token}
    (hscan : Token.scan source = .ok tokens) (hscan' : Token.scan source' = .ok tokens')
    (h : Parser.Parted tokens tokens') (herrors : (Program.ofTokens tokens).errors = [])
    (s : Session) : s.run source = s.run source' := by
  obtain ⟨herrors', hnests⟩ := Program.ofTokens_parted h herrors
  unfold run
  rw [hscan, hscan']
  dsimp only
  rw [herrors, herrors', execute_eq hnests]

/-- A text that is read without an error does the same with a comment between the words `ELSE` and
`IF` that stand at the place of one token, unless this is part of a `%LET` statement. -/
theorem run_eq_of_divider {source : String} {before after : List Token} {t : Token}
    {head first gap second rest divider : List Char}
    (hscan : Token.scan source = .ok (before ++ t :: after)) (ht : t.kind = .keyword .ELSEIF)
    (hw : Token.HasWords source head first gap second rest) (hpos : t.pos = .behind head)
    (hd : Token.IsDivider divider) :
    (∃ u v after', Token.scan (Token.dividedText head first divider second rest) =
      .ok (before ++ u :: v :: after') ∧ u.kind = .keyword .ELSE ∧ v.kind = .keyword .IF) ∧
    (Parser.letsClosed before = true → (Program.ofTokens (before ++ t :: after)).errors = [] →
      ∀ s : Session, s.run source = s.run (Token.dividedText head first divider second rest)) := by
  obtain ⟨head', first', gap', second', rest', hw', hpos', hdivided⟩ := Token.scan_parted hscan ht
  obtain ⟨rfl, rfl, rfl, rfl⟩ := hw.unique hw' (hpos.symm.trans hpos')
  obtain ⟨u, v, after', hscan', hu, hv, halike⟩ := hdivided divider hd
  refine ⟨⟨u, v, after', hscan', hu, hv⟩, fun hlet herrors s => ?_⟩
  have hparted : Parser.Parted (t :: after) (u :: v :: after') := .split ht hu hv (.of_alike halike)
  exact run_eq_of_parted hscan hscan' (hparted.behind hlet) herrors s

end Session

/-- A conditional further branch is the same as an ELSE whose statement is an IF, wherever it stands
in a step and whatever stands in it: the compile passes are the same, and so are all executions. The
scanner takes `ELSE IF` for one token, and for two if a comment stands between the words; a text
that is read without an error does the same with the comment, in every session. -/
theorem elseIf_is_nested (body body' : List StepStatement) (source : String)
    (before after : List Token) (t : Token) (s : Session) :
    (∀ c b c' b' rest, Nests (one (.branch c b (.elseIf c' b' rest)))
      (one (.branch c b (.otherwise (.branch c' b' rest))))) ∧
    (Nests (all body) (all body') → ∀ setting,
      DataStep.compile setting body = DataStep.compile setting body' ∧
      (∀ plan log rows, DataStep.execute setting body plan log rows =
        DataStep.execute setting body' plan log rows) ∧
      DataStep.runStep setting body = DataStep.runStep setting body') ∧
    (Token.scan source = .ok (before ++ t :: after) → t.kind = .keyword .ELSEIF →
      (∃ head first gap second rest,
        Token.HasWords source head first gap second rest ∧ t.pos = .behind head) ∧
      ∀ head first gap second rest divider, Token.HasWords source head first gap second rest →
        t.pos = .behind head → Token.IsDivider divider →
        (∃ u v after', Token.scan (Token.dividedText head first divider second rest) =
          .ok (before ++ u :: v :: after') ∧ u.kind = .keyword .ELSE ∧ v.kind = .keyword .IF) ∧
        (Parser.letsClosed before = true → (Program.ofTokens (before ++ t :: after)).errors = [] →
          s.run source = s.run (Token.dividedText head first divider second rest))) := by
  refine ⟨Nests.branch_elseIf, fun h setting => ?_, fun hscan ht => ?_⟩
  · exact ⟨h.compile_eq setting, h.execute_eq setting, h.runStep_eq setting⟩
  · obtain ⟨head, first, gap, second, rest, hw, hpos, -⟩ := Token.scan_parted hscan ht
    refine ⟨⟨head, first, gap, second, rest, hw, hpos⟩, fun _ _ _ _ _ _ hw hpos hd => ?_⟩
    obtain ⟨htokens, hrun⟩ := Session.run_eq_of_divider hscan ht hw hpos hd
    exact ⟨htokens, fun hlet herrors => hrun hlet herrors s⟩

theorem Token.isDivider_comment : Token.IsDivider " /* or */ ".toList where
  gap rest := by
    have hinner : ¬ ['*', '/'] <:+: [' ', 'o', 'r', ' '] ++ ['*'] := by decide
    exact .blank rfl (.block hinner (.blank rfl (.none rest)))
  comment := ⟨[' '], "* or */ ".toList, by decide +kernel, by simp [Token.isGapChar]⟩

theorem Token.isKeyword_lowerIf : Token.IsKeyword .IF "if".toList :=
  Token.isKeyword_if rfl rfl

theorem Token.isKeyword_else : Token.IsKeyword .ELSE "else".toList where
  reserved := by decide +kernel
  letters := ⟨'e', "lse".toList, by decide +kernel, rfl, by decide +kernel⟩

/-- An IF statement with a further branch in a loop. -/
def loopedChain : List StepStatement :=
  [.loop (.whileTrue (.ref "a")) [.branch (.ref "a") (.assign (.ref "b") (.ref "c"))
    (.elseIf (.ref "b") (.assign (.ref "c") (.ref "a")) .none)]]

/-- The same loop with a nested statement. -/
def loopedNest : List StepStatement :=
  [.loop (.whileTrue (.ref "a")) [.branch (.ref "a") (.assign (.ref "b") (.ref "c"))
    (.otherwise (.branch (.ref "b") (.assign (.ref "c") (.ref "a")) .none))]]

/-- The tokens of a step with a chain of two conditions. -/
def chainTokens : List Token :=
  (Token.scan "data d;if a then b=c;else if b then c=a;run;").toOption.getD []

/-- Two conditions in a loop, and a comment inside a chain of two conditions. -/
theorem elseIf_is_nested_commented :
    (∀ setting, DataStep.runStep setting loopedChain = DataStep.runStep setting loopedNest) ∧
    ({} : Session).run "data d;if a then b=c;else if b then c=a;run;" =
      ({} : Session).run "data d;if a then b=c;else /* or */ if b then c=a;run;" := by
  have hscan : Token.scan "data d;if a then b=c;else if b then c=a;run;" = .ok
      (chainTokens.take 10 ++ ⟨.keyword .ELSEIF, "ELSE IF", ⟨1, 22⟩⟩ :: chainTokens.drop 11) := by
    decide +kernel
  have hw : Token.HasWords "data d;if a then b=c;else if b then c=a;run;"
      "data d;if a then b=c;".toList "else".toList " ".toList "if".toList
      " b then c=a;run;".toList :=
    ⟨by decide +kernel, Token.isKeyword_else, by simp [Token.isGapChar], Token.isKeyword_lowerIf⟩
  have htext : Token.dividedText "data d;if a then b=c;".toList "else".toList
      " /* or */ ".toList "if".toList " b then c=a;run;".toList =
      "data d;if a then b=c;else /* or */ if b then c=a;run;" := by decide +kernel
  obtain ⟨hnests, hsteps, htexts⟩ := elseIf_is_nested loopedChain loopedNest _ _ _ _ {}
  refine ⟨fun setting => ?_, ?_⟩
  · exact (hsteps (.cons (.loop _ (.cons (hnests _ _ _ _ _) .nil)) .nil) setting).2.2
  · rw [← htext]
    exact ((htexts hscan rfl).2 _ _ _ _ _ _ hw (by decide +kernel) Token.isDivider_comment).2
      (by decide +kernel) (by decide +kernel)

/-- With a comment between its words, `ELSE IF` may be followed by a subsetting IF; without one this
is an error. -/
theorem compound_needs_then :
    Token.HasWords "data d;if a then b=c;else if b;run;" "data d;if a then b=c;".toList
      "else".toList " ".toList "if".toList " b;run;".toList ∧
    Token.IsDivider " /* or */ ".toList ∧
    (({} : Session).run "data d;if a then b=c;else if b;run;").1.toOption.map List.length =
      some 1 ∧
    (({} : Session).run (Token.dividedText "data d;if a then b=c;".toList "else".toList
      " /* or */ ".toList "if".toList " b;run;".toList)).1.toOption.map List.length = some 0 := by
  refine ⟨⟨by decide +kernel, Token.isKeyword_else, by simp [Token.isGapChar],
    Token.isKeyword_lowerIf⟩, Token.isDivider_comment, ?_, ?_⟩
  · decide +kernel
  · decide +kernel

end StepLang
