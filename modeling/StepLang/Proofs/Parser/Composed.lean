import StepLang.Proofs.Parser.Passes

/-! # Properties of all parsers

A property that passes from the readings of tokens to what is put together from them holds of every
parser of the language. It is enough to show it of the few operations that all of them are made of.
-/

namespace StepLang.Parser

/-- A property of parsers that reading tokens has and that passes to what is put together from
parsers that have it. They fail with errors of parsing, and how many tokens are ahead may bound
them. -/
structure Sequences (M : {γ : Type} → Parser γ → Prop) : Prop where
  protected pure {γ : Type} {a : γ} : M (Pure.pure a : Parser γ)
  protected bind {γ δ : Type} {p : Parser γ} {f : γ → Parser δ} :
    M p → (∀ a, M (f a)) → M (p >>= f)
  protected throw {γ : Type} {e : Error} : e.stage = .parsing → M (MonadExcept.throw e : Parser γ)
  protected peek : M peek
  protected advance : M advance
  protected sized {γ : Type} (f : Nat → Parser γ) :
    (∀ n, M (f n)) → M (get >>= fun s => f s.ahead.length)

/-- The property also passes to parsers that look at the whole state, change what is neither an
error nor the end of input, and report errors. -/
structure Composes (M : {γ : Type} → Parser γ → Prop) : Prop extends Sequences M where
  protected peekNext : M peekNext
  protected previous : M previous
  protected atEnd : M atEnd
  protected isArray (name : String) : M (isArray name)
  protected modify {g : State → State} :
    (∀ s, (g s).errors = s.errors ∧ (g s).eof = s.eof) → M (modify g)
  protected report {e : Error} : e.stage = .parsing → M (report e)
  protected recover {γ : Type} {p : Parser γ} : M p → M (recover p)

theorem stage_unexpected (expected : String) (t : Token) :
    (unexpected expected t).stage = .parsing := by
  unfold unexpected
  split <;> rfl

variable {α β : Type} {M : {γ : Type} → Parser γ → Prop}

theorem choice {c : Prop} [Decidable c] {p q : Parser α} (hp : M p) (hq : M q) :
    M (if c then p else q) := by
  split
  · exact hp
  · exact hq

namespace Sequences

variable (hM : Sequences M)

include hM

protected theorem map {p : Parser α} {g : α → β} (hp : M p) : M (g <$> p) := by
  rw [map_eq_pure_bind]
  exact hM.bind hp fun _ => hM.pure

protected theorem repeatUpTo {pass : α → Parser (Pass α β)} (h : ∀ a, M (pass a)) (bound : Nat)
    (init : α) : M (repeatUpTo pass bound init) := by
  induction bound generalizing init with
  | zero => exact hM.throw rfl
  | succ bound ih =>
    refine hM.bind (h init) fun r => ?_
    cases r with
    | again a => exact ih a
    | done b => exact hM.pure

protected theorem repeated {pass : α → Parser (Pass α β)} {init : α} (h : ∀ a, M (pass a)) :
    M (repeated init pass) :=
  hM.sized (fun n => repeatUpTo pass (n + 1) init) fun _ => hM.repeatUpTo h _ _

protected theorem check (k : Token.Kind) : M (check k) :=
  hM.bind hM.peek fun _ => hM.pure

protected theorem accept (k : Token.Kind) : M (accept k) :=
  hM.bind (hM.check k) fun _ => choice (hM.bind hM.advance fun _ => hM.pure) hM.pure

/-- Fails because of a token. -/
protected theorem unexpected {expected : String} {t : Token} :
    M (MonadExcept.throw (unexpected expected t) : Parser α) :=
  hM.throw (stage_unexpected expected t)

protected theorem expect (k : Token.Kind) (expected : String) :
    M (do unless ← accept k do throw (unexpected expected (← peek))) :=
  hM.bind (hM.accept k) fun _ => choice hM.pure (hM.bind hM.peek fun _ => hM.unexpected)

protected theorem expectSymbol (s : Symbol) (expected : String) : M (expectSymbol s expected) :=
  hM.expect _ _

protected theorem expectKeyword (k : Keyword) (expected : String) :
    M (expectKeyword k expected) :=
  hM.expect _ _

protected theorem expectSemicolon : M expectSemicolon := hM.expectSymbol _ _

protected theorem expectName (expected : String) : M (expectName expected) := by
  refine hM.bind hM.peek fun t => ?_
  split
  · exact hM.bind hM.advance fun _ => hM.pure
  · exact hM.unexpected

protected theorem list {item : α → Parser α} {init : α} (h : ∀ a, M (item a)) :
    M (Parser.repeated init (listPass item)) :=
  hM.repeated fun a => hM.bind (hM.check _) fun _ =>
    choice hM.pure (hM.bind (h a) fun _ => hM.pure)

protected theorem datasetRef : M datasetRef :=
  hM.bind (hM.expectName _) fun _ => hM.bind (hM.accept _) fun _ =>
    choice (hM.bind (hM.expectName _) fun _ => hM.pure) hM.pure

protected theorem datasetItem (refs : List DatasetRef) : M (datasetItem refs) :=
  hM.bind hM.datasetRef fun _ => hM.pure

protected theorem stepHead : M stepHead :=
  hM.bind hM.advance fun _ => hM.bind (hM.list hM.datasetItem) fun _ =>
    hM.bind hM.expectSemicolon fun _ => hM.pure

end Sequences

namespace Composes

variable (hM : Composes M)

include hM

protected theorem nextIsAssign : M nextIsAssign :=
  hM.bind hM.peekNext fun _ => hM.pure

/-! ### Lists of names -/

protected theorem datasetList : M datasetList :=
  hM.bind (hM.list hM.datasetItem) fun _ => hM.bind hM.expectSemicolon fun _ =>
    choice (hM.bind hM.previous fun _ => hM.unexpected) hM.pure

protected theorem byItem (read : List ByVariable × Bool) : M (byItem read) :=
  hM.bind (hM.check _) fun _ => hM.bind hM.peekNext fun _ =>
    choice (hM.bind hM.advance fun _ => hM.pure) (hM.bind (hM.expectName _) fun _ => hM.pure)

protected theorem byList : M byList :=
  hM.bind (hM.list hM.byItem) fun _ => hM.bind hM.expectSemicolon fun _ =>
    choice (hM.bind hM.previous fun _ => hM.unexpected) hM.pure

protected theorem nameOrRange : M nameOrRange := by
  refine hM.bind (hM.expectName _) fun first => hM.bind (hM.check _) fun _ =>
    hM.bind hM.peekNext fun _ => ?_
  refine choice (hM.bind hM.advance fun _ => hM.bind hM.peek fun _ =>
    hM.bind (hM.expectName _) fun last => ?_)
    hM.pure
  split
  · exact hM.pure
  · exact hM.throw rfl

protected theorem nameList : M nameList :=
  hM.bind (hM.list fun _ => hM.bind hM.nameOrRange fun _ => hM.pure) fun _ =>
    hM.bind hM.expectSemicolon fun _ => hM.pure

/-! ### Expressions -/

section Expressions

variable {p : Parser Expression}

protected theorem subscript (hp : M p) : M (subscript p) := by
  refine hM.bind hM.advance fun opening => ?_
  split
  · exact hM.unexpected
  · exact hM.bind hp fun _ => hM.bind (hM.expectSymbol _ _) fun _ => hM.pure

protected theorem atVariableList : M atVariableList := by
  refine hM.bind hM.peek fun t => ?_
  split
  · exact hM.bind hM.peekNext fun _ => hM.pure
  · exact hM.pure

protected theorem variableList : M variableList := by
  refine hM.bind hM.advance fun _ => hM.bind (hM.repeated fun names => ?_) fun _ => hM.pure
  refine hM.bind (hM.accept _) fun _ => choice hM.pure (hM.bind (hM.expectName _) fun first => ?_)
  exact hM.bind (hM.accept _) fun _ => choice (hM.bind (hM.expectName _) fun _ => hM.pure) hM.pure

protected theorem arguments (hp : M p) : M (arguments p) := by
  refine hM.bind (hM.accept _) fun _ => choice hM.pure ?_
  refine hM.bind hM.atVariableList fun _ => choice hM.variableList ?_
  refine hM.repeated fun args => hM.bind hp fun _ => hM.bind (hM.accept _) fun _ => ?_
  exact choice hM.pure (hM.bind (hM.expectSymbol _ _) fun _ => hM.pure)

protected theorem nameSuffix (hp : M p) (name : String) :
    M (nameSuffix p name) := by
  have helement : M (do return Expression.element name (← subscript p)) :=
    hM.bind (hM.subscript hp) fun _ => hM.pure
  refine hM.bind hM.peek fun t => ?_
  split
  · exact helement
  · exact helement
  · refine hM.bind (hM.isArray _) fun _ => choice helement ?_
    exact hM.bind hM.advance fun _ => hM.bind (hM.arguments hp) fun _ => hM.pure
  · exact hM.pure

protected theorem primary (hp : M p) : M (primary p) := by
  refine hM.bind hM.peek fun t => ?_
  split
  case h_5 =>
    exact hM.bind hM.advance fun _ => hM.bind hp fun _ => hM.bind (hM.expectSymbol _ _) fun _ =>
      hM.pure
  case h_6 =>
    split
    · exact hM.bind hM.advance fun _ => hM.nameSuffix hp _
    · exact hM.unexpected
  all_goals exact hM.bind hM.advance fun _ => hM.pure

protected theorem unary (hp : M p) (bound : Nat) : M (unary p bound) := by
  induction bound with
  | zero => exact hM.throw rfl
  | succ bound ih =>
    refine hM.bind hM.peek fun t => ?_
    split
    · exact hM.bind hM.advance fun _ => hM.bind ih fun _ => hM.pure
    · exact hM.primary hp

protected theorem operation (depth strength : Nat) : M (operation depth strength) := by
  induction depth generalizing strength with
  | zero => exact hM.throw rfl
  | succ depth ih =>
    rw [operation_eq]
    refine hM.sized (fun n =>
      do repeated (← unary (operation depth 1) (n + 1)) (operationPass depth strength))
      fun n => hM.bind (hM.unary (ih 1) _) fun first => hM.repeated fun left => ?_
    refine hM.bind hM.peek fun t => ?_
    split
    · exact hM.pure
    · exact choice hM.pure (hM.bind hM.advance fun _ => hM.bind (ih _) fun _ => hM.pure)

protected theorem expression : M expression :=
  hM.sized (fun n => operation (n + 1) 1) fun _ => hM.operation _ _

end Expressions

/-! ### Statements of a step -/

protected theorem atStepBoundary : M atStepBoundary := by
  refine hM.bind hM.peek fun t => ?_
  split
  · exact hM.bind hM.nextIsAssign fun _ => hM.pure
  · exact hM.pure

protected theorem nextIsSubscript (name : String) : M (nextIsSubscript name) := by
  refine hM.bind hM.peekNext fun t => ?_
  split
  · exact hM.pure
  · exact hM.pure
  · exact hM.isArray name
  · exact hM.pure

protected theorem assignment : M assignment :=
  hM.bind (hM.expectName _) fun _ => hM.bind (hM.expectSymbol _ _) fun _ =>
    hM.bind hM.expression fun _ => hM.bind hM.expectSemicolon fun _ => hM.pure

protected theorem elementAssignment : M elementAssignment :=
  hM.bind (hM.expectName _) fun _ => hM.bind (hM.subscript hM.expression) fun _ =>
    hM.bind (hM.expectSymbol _ _) fun _ => hM.bind hM.expression fun _ =>
      hM.bind hM.expectSemicolon fun _ => hM.pure

protected theorem arraySize : M arraySize := by
  refine hM.bind (hM.accept _) fun _ => choice hM.pure (hM.bind hM.advance fun t => ?_)
  split
  · exact choice hM.pure hM.unexpected
  · exact hM.unexpected

protected theorem elementKind : M elementKind := by
  refine hM.bind (hM.accept _) fun _ => choice (hM.bind hM.peek fun t => ?_) hM.pure
  split
  · exact hM.bind hM.advance fun _ => hM.pure
  · exact hM.pure

/-- An array whose size is not the count of its variables is an error of parsing. -/
protected theorem arrayVariables (pos : Position) (name : String) (size : ArraySize)
    (listed : List String) :
    M (arrayStatement.liftExcept (arrayVariables pos name size listed)) := by
  unfold arrayVariables
  split
  · split
    · exact hM.pure
    · split
      · exact hM.pure
      · exact hM.throw rfl
  · split
    · exact hM.throw rfl
    · exact hM.pure

protected theorem arrayStatement : M arrayStatement := by
  refine hM.bind hM.advance fun _ => hM.bind (hM.expectName _) fun _ =>
    hM.bind hM.advance fun opening => ?_
  split
  · exact hM.bind hM.previous fun _ => hM.unexpected
  · refine hM.bind hM.arraySize fun _ => hM.bind (hM.expectSymbol _ _) fun _ =>
      hM.bind hM.elementKind fun _ => hM.bind hM.nameList fun _ =>
        hM.bind (hM.arrayVariables _ _ _ _) fun _ => ?_
    exact hM.bind (hM.modify fun _ => ⟨rfl, rfl⟩) fun _ => hM.pure

protected theorem literal : M literal? := by
  refine hM.bind hM.peek fun t => ?_
  split
  · exact hM.bind hM.advance fun _ => hM.pure
  · exact hM.bind hM.advance fun _ => hM.pure
  · exact hM.bind hM.advance fun _ => hM.pure
  · refine hM.bind hM.peekNext fun t => ?_
    split
    · exact hM.bind hM.advance fun _ => hM.bind hM.advance fun _ => hM.pure
    · exact hM.unexpected
  · exact hM.pure

protected theorem retainItem (read : List RetainItem × List RetainItem) :
    M (retainItem read) := by
  refine hM.bind hM.literal fun initial => ?_
  cases initial with
  | some initial => exact hM.pure
  | none => exact hM.bind hM.nameOrRange fun _ => hM.pure

protected theorem retainStatement : M retainStatement :=
  hM.bind hM.advance fun _ => hM.bind (hM.list hM.retainItem) fun _ =>
    hM.bind hM.expectSemicolon fun _ => hM.pure

protected theorem lengthItem (read : List LengthItem × List String) :
    M (lengthItem read) := by
  refine hM.bind (hM.accept _) fun _ => hM.bind hM.peek fun t => ?_
  split
  · exact hM.bind hM.advance fun _ => choice (hM.throw rfl) (choice (hM.throw rfl) hM.pure)
  · exact hM.bind hM.nameOrRange fun _ => hM.pure

protected theorem lengthStatement : M lengthStatement :=
  hM.bind hM.advance fun _ => hM.bind (hM.list hM.lengthItem) fun _ =>
    choice (hM.bind hM.expectSemicolon fun _ => hM.pure) (hM.bind hM.peek fun _ => hM.unexpected)

protected theorem inputItem (fields : List InputField) : M (inputItem fields) := by
  refine hM.bind (hM.accept _) fun _ => choice ?_ (hM.bind (hM.expectName _) fun _ => hM.pure)
  split
  · exact hM.pure
  · exact hM.bind hM.previous fun _ => hM.unexpected

protected theorem inputStatement : M inputStatement :=
  hM.bind hM.advance fun _ => hM.bind (hM.list hM.inputItem) fun _ =>
    hM.bind hM.expectSemicolon fun _ => hM.pure

protected theorem dataLinesStatement : M dataLinesStatement := by
  refine hM.bind hM.advance fun _ => hM.bind hM.expectSemicolon fun _ =>
    hM.bind hM.advance fun t => ?_
  split
  · exact hM.bind hM.expectSemicolon fun _ => hM.pure
  · exact hM.unexpected

section Nested

variable {p : Parser StepStatement}

protected theorem alternative (hp : M p) (bound : Nat) :
    M (alternative p bound) := by
  induction bound with
  | zero => exact hM.throw rfl
  | succ bound ih =>
    refine hM.bind (hM.accept _) fun _ => choice ?_ ?_
    · exact hM.bind hM.expression fun _ => hM.bind (hM.expectKeyword _ _) fun _ =>
        hM.bind hp fun _ => hM.bind ih fun _ => hM.pure
    · exact hM.bind (hM.accept _) fun _ => choice (hM.bind hp fun _ => hM.pure) hM.pure

protected theorem alternatives (hp : M p) (condition : Expression) (consequence : StepStatement) :
    M (do
      return StepStatement.branch condition consequence
        (← alternative p ((← get).ahead.length + 1))) :=
  hM.sized
    (fun n => do return StepStatement.branch condition consequence (← alternative p (n + 1)))
    fun _ => hM.bind (hM.alternative hp _) fun _ => hM.pure

protected theorem ifStatement (hp : M p) : M (ifStatement p) := by
  refine hM.bind hM.advance fun _ => hM.bind hM.expression fun _ => hM.bind (hM.accept _) fun _ =>
    choice hM.pure (hM.bind (hM.expectKeyword _ _) fun _ => hM.bind hp fun _ => ?_)
  exact hM.alternatives hp _ _

protected theorem doPass (hp : M p) (body : List StepStatement) : M (doPass p body) := by
  refine hM.bind (hM.accept _) fun _ => choice (hM.bind hM.expectSemicolon fun _ => hM.pure) ?_
  refine hM.bind hM.atEnd fun _ => hM.bind hM.atStepBoundary fun _ =>
    choice (hM.bind hM.peek fun _ => hM.unexpected) ?_
  refine hM.bind (hM.accept _) fun _ => choice hM.pure (hM.bind (hM.recover hp) fun r => ?_)
  cases r <;> exact hM.pure

protected theorem doBody (hp : M p) : M (doBody p) := hM.repeated (hM.doPass hp)

protected theorem conditionLoop (hp : M p) (test : Expression → LoopTest) :
    M (conditionLoop p test) :=
  hM.bind hM.advance fun _ => hM.bind (hM.expectSymbol _ _) fun _ => hM.bind hM.expression fun _ =>
    hM.bind (hM.expectSymbol _ _) fun _ => hM.bind hM.expectSemicolon fun _ =>
      hM.bind (hM.doBody hp) fun _ => hM.pure

protected theorem rangeLoop (hp : M p) : M (rangeLoop p) := by
  refine hM.bind (hM.expectName _) fun index => hM.bind (hM.expectSymbol _ _) fun _ =>
    hM.bind hM.expression fun first => hM.bind (hM.expectKeyword _ _) fun _ =>
      hM.bind hM.expression fun last => hM.bind (hM.accept _) fun _ => ?_
  have hbody (increment : Option Expression) : M do
      expectSemicolon
      return StepStatement.iterate index first last increment (← doBody p) :=
    hM.bind hM.expectSemicolon fun _ => hM.bind (hM.doBody hp) fun _ => hM.pure
  exact choice (hM.bind (hM.map hM.expression) hbody) (hM.bind hM.pure hbody)

protected theorem doStatement (hp : M p) : M (doStatement p) := by
  refine hM.bind hM.advance fun _ => hM.bind (hM.accept _) fun _ =>
    choice (hM.bind (hM.doBody hp) fun _ => hM.pure) (hM.bind hM.peek fun t => ?_)
  split
  · exact hM.conditionLoop hp _
  · exact hM.conditionLoop hp _
  · exact hM.rangeLoop hp

protected theorem keyword (hp : M p) : M (keywordStatement p) :=
  hM.bind hM.advance fun _ => hp

protected theorem statementBody (hp : M p) : M (statementBody p) := by
  refine hM.bind hM.peek fun t => ?_
  split
  · exact hM.keyword hM.pure
  · exact hM.keyword (hM.bind hM.datasetList fun _ => hM.pure)
  · exact hM.keyword (hM.bind hM.datasetList fun _ => hM.pure)
  · exact hM.keyword (hM.bind hM.byList fun _ => hM.pure)
  · exact hM.ifStatement hp
  · exact hM.doStatement hp
  · exact hM.arrayStatement
  · exact hM.keyword (hM.bind hM.nameList fun _ => hM.pure)
  · exact hM.keyword (hM.bind hM.nameList fun _ => hM.pure)
  · exact hM.retainStatement
  · exact hM.lengthStatement
  · exact hM.inputStatement
  · exact hM.dataLinesStatement
  · exact hM.keyword (hM.bind hM.nameList fun _ => hM.pure)
  · exact hM.keyword (hM.bind hM.expectSemicolon fun _ => hM.pure)
  · exact hM.keyword (hM.bind hM.expectSemicolon fun _ => hM.pure)
  · exact hM.throw rfl
  · exact hM.throw rfl

end Nested

protected theorem statementUpTo (depth : Nat) : M (statementUpTo depth) := by
  induction depth with
  | zero => exact hM.throw rfl
  | succ depth ih =>
    refine hM.bind hM.peek fun t => ?_
    split
    · refine hM.bind hM.nextIsAssign fun _ => choice hM.assignment ?_
      refine hM.bind (hM.nextIsSubscript _) fun _ => choice hM.elementAssignment ?_
      exact hM.statementBody ih
    · exact hM.statementBody ih

protected theorem stepStatement : M stepStatement :=
  hM.sized (fun n => statementUpTo (n + 1)) fun _ => hM.statementUpTo _

/-! ### Settings -/

protected theorem optionValue : M optionValue := by
  refine hM.bind hM.advance fun t => ?_
  split
  · exact hM.pure
  · exact hM.pure
  · split
    · exact hM.pure
    · exact hM.unexpected

protected theorem optionItem (settings : List (String × String)) :
    M (optionItem settings) :=
  hM.bind (hM.expectName _) fun _ => hM.bind (hM.accept _) fun _ =>
    choice (hM.bind hM.optionValue fun _ => hM.pure) (hM.bind hM.pure fun _ => hM.pure)

protected theorem optionsStatement : M optionsStatement :=
  hM.bind hM.advance fun _ => hM.bind (hM.list hM.optionItem) fun _ =>
    hM.bind hM.expectSemicolon fun _ => hM.pure

protected theorem libnameItem (readOnly : Bool) : M (libnameItem readOnly) :=
  hM.bind (hM.expectName _) fun _ => hM.bind (hM.expectSymbol _ _) fun _ =>
    hM.bind hM.optionValue fun _ => choice hM.pure (hM.bind hM.previous fun _ => hM.throw rfl)

protected theorem libnameStatement : M libnameStatement := by
  refine hM.bind hM.advance fun _ => hM.bind (hM.expectName _) fun libref =>
    hM.bind hM.peek fun t => ?_
  split
  -- an engine is one token more
  case' h_1 => refine hM.bind hM.advance fun _ => ?_
  all_goals
    refine hM.bind hM.pure fun engine => hM.bind hM.advance fun t => ?_
    split
    · exact hM.bind (hM.list hM.libnameItem) fun _ => hM.bind hM.expectSemicolon fun _ => hM.pure
    · exact hM.unexpected

protected theorem titleStatement : M titleStatement := by
  refine hM.bind hM.advance fun _ => hM.bind hM.peek fun t => ?_
  split
  · exact hM.bind hM.advance fun _ => hM.bind hM.pure fun _ => hM.bind hM.expectSemicolon fun _ =>
    hM.pure
  · exact hM.bind hM.pure fun _ => hM.bind hM.expectSemicolon fun _ => hM.pure

protected theorem macroItem (parts : List String) : M (macroItem parts) := by
  -- what is read behind the failure at the end of input stands in both branches
  refine hM.bind hM.atEnd fun _ => choice (hM.bind (hM.throw rfl) fun _ =>
    hM.bind hM.advance fun t => ?_)
    (hM.bind hM.advance fun t => ?_)
  all_goals split <;> exact hM.pure

protected theorem macroLetStatement : M macroLetStatement :=
  hM.bind hM.advance fun _ => hM.bind (hM.expectName _) fun _ =>
    hM.bind (hM.expectSymbol _ _) fun _ =>
    hM.bind (hM.list hM.macroItem) fun _ => hM.bind hM.expectSemicolon fun _ => hM.pure

protected theorem setting : M setting? := by
  refine hM.bind hM.nextIsAssign fun _ => choice hM.pure (hM.bind hM.peek fun t => ?_)
  split
  · exact hM.map hM.optionsStatement
  · exact hM.map hM.libnameStatement
  · exact hM.map hM.titleStatement
  · exact hM.map hM.macroLetStatement
  · exact hM.throw rfl
  · exact hM.pure

protected theorem finishStep : M finishStep := by
  refine hM.bind hM.peek fun t => ?_
  split
  · exact hM.bind hM.advance fun _ => hM.expectSemicolon
  · exact hM.bind hM.advance fun _ => hM.expectSemicolon
  · exact hM.pure

/-! ### Procedures -/

protected theorem datasetOption : M datasetOption :=
  hM.bind (hM.expectSymbol _ _) fun _ => hM.datasetRef

section Procedures

variable {α : Type}

protected theorem invalidStatement (procedure : String) :
    M (invalidStatement procedure : Parser α) :=
  hM.bind hM.peek fun _ => hM.throw rfl

protected theorem procedureOptions {init : α} {option : α → Token → Bool → Parser α}
    (h : ∀ a t assigned, M (option a t assigned)) :
    M (procedureOptions init option) :=
  hM.bind (hM.list fun a => hM.bind hM.advance fun t => hM.bind (hM.check _) fun assigned =>
    h a t assigned)
    fun _ => hM.bind hM.expectSemicolon fun _ => hM.pure

protected theorem procedureStatement {statement : α → Parser α}
    (h : ∀ a, M (statement a)) (read : α × List Statement) :
    M (procedureStatement statement read) := by
  refine hM.bind hM.setting fun setting => ?_
  cases setting with
  | some s => exact hM.pure
  | none => exact hM.bind (h _) fun _ => hM.pure

protected theorem procedurePass {statement : α → Parser α} (h : ∀ a, M (statement a))
    (read : α × List Statement) : M (procedurePass statement read) := by
  refine hM.bind hM.atEnd fun _ => hM.bind hM.atStepBoundary fun _ => choice hM.pure ?_
  refine hM.bind (hM.accept _) fun _ => choice hM.pure ?_
  exact hM.bind (hM.recover (hM.procedureStatement h read)) fun _ => hM.pure

protected theorem procedureBody {init : α} {statement : α → Parser α}
    (h : ∀ a, M (statement a)) : M (procedureBody init statement) :=
  hM.bind (hM.repeated (hM.procedurePass h)) fun _ => hM.bind hM.finishStep fun _ => hM.pure

end Procedures

protected theorem sortOption (request : SortRequest) (t : Token) (assigned : Bool) :
    M (sortOption request t assigned) := by
  unfold sortOption
  split
  · exact hM.bind hM.datasetOption fun _ => hM.pure
  · exact hM.bind hM.datasetOption fun _ => hM.pure
  · exact hM.pure
  · exact hM.pure
  · exact hM.pure
  · exact hM.throw rfl

protected theorem sortStatement (request : SortRequest) : M (sortStatement request) := by
  refine hM.bind hM.peek fun t => ?_
  split
  · exact hM.bind hM.advance fun _ => hM.bind hM.byList fun _ => hM.pure
  · exact hM.bind hM.advance fun _ => hM.bind hM.expression fun _ =>
      hM.bind (hM.recover hM.expectSemicolon) fun _ => hM.pure
  · exact hM.invalidStatement _

protected theorem sortProcedure : M sortProcedure :=
  hM.bind hM.previous fun _ => hM.bind (hM.procedureOptions hM.sortOption) fun _ =>
    hM.bind (hM.procedureBody hM.sortStatement) fun _ =>
      choice (hM.bind (hM.report rfl) fun _ => hM.pure) hM.pure

protected theorem columnPass (names : List String) : M (columnPass names) := by
  refine hM.bind hM.peek fun t => ?_
  split
  · exact hM.bind hM.nextIsAssign fun _ => choice hM.pure (hM.bind hM.advance fun _ => hM.pure)
  · exact hM.pure

protected theorem meansItem (read : Option DatasetRef × List (Statistic × List String)) :
    M (meansItem read) := by
  refine hM.bind hM.advance fun t => hM.bind (hM.check _) fun _ =>
    choice (hM.bind hM.datasetOption fun _ => hM.pure) ?_
  split
  · exact hM.unexpected
  · exact hM.bind (hM.expectSymbol _ _) fun _ => hM.bind (hM.repeated hM.columnPass) fun _ =>
      choice (hM.bind hM.peek fun _ => hM.unexpected) hM.pure

protected theorem meansOutput : M meansOutput := by
  rw [meansOutput_eq]
  refine hM.bind (hM.list hM.meansItem) fun read => hM.bind hM.peek fun _ =>
    hM.bind hM.expectSemicolon fun _ => ?_
  split
  · exact hM.pure
  · exact hM.throw rfl

protected theorem meansOption (request : MeansRequest) (t : Token) (assigned : Bool) :
    M (meansOption request t assigned) := by
  refine choice (hM.bind hM.datasetOption fun _ => hM.pure) ?_
  split
  · exact hM.throw rfl
  · exact choice hM.pure hM.pure

protected theorem meansStatement (request : MeansRequest) :
    M (meansStatement request) := by
  refine hM.bind hM.peek fun t => ?_
  split
  · exact hM.bind hM.advance fun _ => hM.bind hM.nameList fun _ => hM.pure
  · exact hM.bind hM.advance fun _ => hM.bind hM.meansOutput fun _ => hM.pure
  · exact hM.invalidStatement _

protected theorem meansProcedure : M meansProcedure :=
  hM.bind hM.previous fun _ => hM.bind (hM.procedureOptions hM.meansOption) fun _ =>
    hM.bind (hM.procedureBody hM.meansStatement) fun _ =>
      choice (hM.bind (hM.report rfl) fun _ => hM.pure) hM.pure

protected theorem obsOption : M obsOption := by
  refine hM.bind hM.advance fun _ => hM.bind hM.advance fun t => ?_
  split
  · exact choice hM.pure hM.unexpected
  · exact hM.unexpected

protected theorem printOption (request : PrintRequest) (t : Token) (assigned : Bool) :
    M (printOption request t assigned) := by
  unfold printOption
  split
  · exact hM.bind hM.datasetOption fun _ => hM.pure
  · exact hM.bind hM.obsOption fun _ => hM.pure
  · exact hM.pure
  · exact hM.throw rfl

protected theorem printStatement (request : PrintRequest) :
    M (printStatement request) := by
  refine hM.bind hM.peek fun t => ?_
  split
  · exact hM.bind hM.advance fun _ => hM.bind hM.nameList fun _ => hM.pure
  · exact hM.invalidStatement _

protected theorem printProcedure : M printProcedure :=
  hM.bind (hM.procedureOptions hM.printOption) fun _ =>
    hM.bind (hM.procedureBody hM.printStatement) fun _ => hM.pure

protected theorem freqOption (request : FreqRequest) (t : Token) (assigned : Bool) :
    M (freqOption request t assigned) := by
  unfold freqOption
  split
  · exact hM.bind hM.datasetOption fun _ => hM.pure
  · exact hM.throw rfl

protected theorem freqStatement (request : FreqRequest) : M (freqStatement request) := by
  refine hM.bind hM.peek fun t => ?_
  split
  · exact hM.bind hM.advance fun _ => hM.bind hM.nameList fun _ => hM.pure
  · exact hM.invalidStatement _

protected theorem freqProcedure : M freqProcedure :=
  hM.bind (hM.procedureOptions hM.freqOption) fun _ =>
    hM.bind (hM.procedureBody hM.freqStatement) fun _ => hM.pure

protected theorem skipSql : M skipSql :=
  hM.repeated fun _ => hM.bind hM.atEnd fun _ => choice hM.pure (hM.bind hM.advance fun _ =>
    hM.bind (hM.check _) fun _ => choice (hM.bind hM.advance fun _ => hM.pure) hM.pure)

protected theorem skipStep : M skipStep :=
  hM.repeated fun _ => hM.bind hM.atEnd fun _ => hM.bind hM.atStepBoundary fun _ =>
    choice hM.pure (hM.bind hM.advance fun _ => hM.pure)

protected theorem procedure : M procedure := by
  refine hM.bind hM.advance fun _ => hM.bind hM.advance fun t => ?_
  split
  · exact hM.sortProcedure
  · exact hM.meansProcedure
  · exact hM.printProcedure
  · exact hM.freqProcedure
  · exact hM.bind hM.skipSql fun _ => hM.pure
  · split
    · exact hM.unexpected
    · exact hM.bind hM.skipStep fun _ => hM.bind hM.finishStep fun _ => hM.pure

/-! ### Programs -/

protected theorem behindSetting (read : List Statement × List StepStatement)
    (setting : Option (Option Statement)) :
    M (do
      match setting with
      | none => return Pass.again read
      | some (some s) => return .again (read.1 ++ [s], read.2)
      | some none =>
        if ← accept (.symbol .semicolon) then return .again read
        else
          match ← recover stepStatement with
          | some s => return .again (read.1, read.2 ++ [s])
          | none => return (.again read : Pass _ (List Statement × List StepStatement))) := by
  split
  · exact hM.pure
  · exact hM.pure
  · refine hM.bind (hM.accept _) fun _ => choice hM.pure ?_
    refine hM.bind (hM.recover hM.stepStatement) fun s => ?_
    cases s <;> exact hM.pure

protected theorem stepPass (read : List Statement × List StepStatement) : M (stepPass read) :=
  hM.bind hM.atEnd fun _ => hM.bind hM.atStepBoundary fun _ => choice hM.pure
    (hM.bind (hM.recover hM.setting) fun setting => hM.behindSetting read setting)

protected theorem stepBody : M stepBody := hM.repeated hM.stepPass

protected theorem dataStep : M dataStep :=
  hM.bind hM.advance fun _ => hM.bind (hM.list hM.datasetItem) fun _ =>
    hM.bind hM.expectSemicolon fun _ => hM.bind (hM.modify fun _ => ⟨rfl, rfl⟩) fun _ =>
      hM.bind hM.stepBody fun _ => hM.bind hM.finishStep fun _ => hM.pure

protected theorem programStatement : M programStatement := by
  refine hM.bind hM.nextIsAssign fun assigned => hM.bind hM.peek fun t => ?_
  split
  · exact hM.bind hM.advance fun _ => hM.pure
  · exact hM.dataStep
  · exact hM.procedure
  · exact hM.bind hM.advance fun _ => hM.bind hM.expectSemicolon fun _ => hM.pure
  · exact hM.bind hM.advance fun _ => hM.bind hM.expectSemicolon fun _ => hM.pure
  · refine hM.bind hM.setting fun setting => ?_
    cases setting with
    | some s => exact hM.pure
    | none => exact hM.bind hM.stepStatement fun _ => hM.pure

protected theorem programPass (statements : List Statement) : M (programPass statements) :=
  hM.bind hM.atEnd fun _ =>
    choice hM.pure (hM.bind (hM.recover hM.programStatement) fun _ => hM.pure)

protected theorem program : M program := hM.repeated hM.programPass

end Composes

end StepLang.Parser
