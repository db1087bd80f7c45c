import StepLang.Parser.Setting
import StepLang.Proofs.Parser.Expressions

/-! # Reading statements

The parsers of settings and of the statements of a DATA step read a token at least, and what they do
depends on the tokens through the end of the statement. Most of them fail only before their
semicolon; those that check something behind it stand apart.
-/

namespace StepLang.Parser

variable {α : Type} {c : Frame} {s : State}

theorem strict_of_late (hr : c.Ready s) (hk : checksLate s.next.kind = true) :
    c.strict = false := by
  refine Bool.eq_false_iff.mpr fun hc => ?_
  have hn : s.next.kind ≠ .endOfInput := by
    intro h
    simp [h, checksLate] at hk
  simp [(hr.strict hc).2 s.next (next_mem hr hn)] at hk

theorem tidy_of_compound (hr : c.Ready s) (hk : isCompound s.next.kind = true) :
    c.tidy = false ∧ c.strict = false := by
  have htidy : c.tidy ≠ true := by
    intro hc
    have hn : s.next.kind ≠ .endOfInput := by
      intro h
      simp [h, isCompound] at hk
    simp [(hr.tidy hc).simple s.next (next_mem hr hn)] at hk
  exact ⟨Bool.eq_false_iff.mpr htidy, Bool.eq_false_iff.mpr fun hc => htidy (hr.strict hc).1⟩

/-- The parsers read a statement from every state with fewer tokens ahead. -/
def ReadsStatement (c : Frame) (n : Nat) (p q : Parser α) : Prop :=
  ∀ s, s.size < n → c.floor ≤ s.size → Framed c s p q fun _ s' => s'.size < s.size

variable {p q : Parser StepStatement}

/-! ### Assignments and branches -/

theorem framed_assignment (hs : c.floor ≤ s.size) :
    Framed c s assignment assignment fun _ s' => s'.size < s.size := by
  unfold assignment
  refine .expectName hs fun name _ hf hlt => ?_
  refine .expectSymbol (by simp) hf fun hf₁ hlt₁ => ?_
  refine (framed_expression hf₁).bind fun value s₂ h₂ => ?_
  have hsize := h₂.size
  exact .expectSemicolon h₂.floor fun hlt₃ => .pure (by omega)

theorem framed_elementAssignment (hs : c.floor ≤ s.size) (hk : IsInner s.second.kind) :
    Framed c s elementAssignment elementAssignment fun _ s' => s'.size < s.size := by
  unfold elementAssignment
  refine .expectName hs fun array _ hf hlt => ?_
  refine (framed_subscript (fun s' _ hf' => framed_expression hf') hf hk).bind fun index s₁ h₁ => ?_
  have hsize₁ := h₁.size
  refine .expectSymbol (by simp) h₁.floor fun hf₂ hlt₂ => ?_
  refine (framed_expression hf₂).bind fun value s₃ h₃ => ?_
  have hsize₃ := h₃.size
  exact .expectSemicolon h₃.floor fun hlt₄ => .pure (by omega)

theorem framed_alternative {n m m' : Nat} (hp : ReadsStatement c n p q) (hn : s.size ≤ n)
    (hm : s.size < m) (hm' : s.size < m') :
    Framed c s (alternative p m) (alternative q m') fun _ s' => s'.size ≤ s.size := by
  induction m generalizing m' s with
  | zero => omega
  | succ m ih =>
    obtain ⟨m', rfl⟩ : ∃ k, m' = k + 1 := ⟨m' - 1, by omega⟩
    unfold alternative
    refine .ready fun hr => ?_
    by_cases hs : c.floor ≤ s.size
    · refine .accept (by simp [IsInner]) hs (fun _ hf hlt => ?_) fun _ => ?_
      · refine (framed_expression hf).bind fun condition s₁ h₁ => ?_
        have hsize₁ := h₁.size
        refine .expectKeyword h₁.floor fun hf₂ hlt₂ => ?_
        refine (hp _ (by omega) hf₂).bind fun consequence s₃ hlt₃ => ?_
        refine (ih (by omega) (by omega) (by omega)).bind fun others s₄ hle₄ => .pure (by omega)
      · refine .accept (by simp [IsInner]) hs (fun _ hf hlt => ?_) fun _ => .pure (Nat.le_refl _)
        refine (hp _ (by omega) hf).bind fun other s₁ hlt₁ => .pure (by omega)
    · -- behind the semicolon of a strict frame nothing is left
      have hnil : s.ahead = [] := by
        have := Bool.toNat_le c.strict
        exact List.length_eq_zero_iff.mp (by unfold Frame.floor State.size at hs; omega)
      have hnext : s.next.kind = .endOfInput := by
        rw [State.next, hnil]
        exact hr.eof
      refine .accept_any (fun hk => ?_) fun _ => .accept_any (fun hk => ?_) fun _ =>
        .pure (Nat.le_refl _)
      · simp [hnext] at hk
      · simp [hnext] at hk

theorem framed_ifStatement (hp : ReadsStatement c s.size p q) (hs : c.floor ≤ s.size)
    (hk : IsInner s.next.kind) :
    Framed c s (ifStatement p) (ifStatement q) fun _ s' => s'.size < s.size := by
  unfold ifStatement
  refine .read hk hs fun hf hlt => ?_
  refine (framed_expression hf).bind fun condition s₁ h₁ => ?_
  have hsize₁ := h₁.size
  refine .acceptSemicolon (fun hlt₂ => .pure (by omega)) fun _ => ?_
  refine .expectKeyword h₁.floor fun hf₂ hlt₂ => ?_
  refine (hp _ (by omega) hf₂).bind fun consequence s₃ hlt₃ => .get fun t ht => ?_
  refine (framed_alternative hp (by omega) (Nat.lt_succ_self _) (Nat.lt_succ_of_le ht)).bind
    fun others s₄ hle₄ => .pure (by omega)

/-! ### Groups -/

def State.isBoundary (s : State) : Bool :=
  match s.next.kind with
  | .keyword k => (k == .RUN || k == .QUIT || k.startsStep) && !(s.second.kind == .symbol .assign)
  | _ => false

theorem Framed.atStepBoundary {f g : Bool → Parser α} {Q : α → State → Prop}
    (h : Framed c s (f s.isBoundary) (g s.isBoundary) Q) :
    Framed c s (atStepBoundary >>= f) (atStepBoundary >>= g) Q := by
  refine .look (l := State.isBoundary) (fun s => ?_) (fun t _ ht hn => ?_) h
  · unfold Parser.atStepBoundary State.isBoundary
    rw [out_bind_of_ok (out_peek s)]
    cases s.next.kind <;> rfl
  · unfold State.isBoundary
    rw [ht.next hn]
    split
    · rename_i k hk
      rw [ht.second hn (.inr (by simp [hk]))]
    · rfl

theorem size_pos_of_not_end {b : Bool} (h : ¬ (s.ahead.isEmpty || b) = true) : 0 < s.size := by
  cases hs : s.ahead with
  | nil => simp [hs] at h
  | cons t rest => simp [State.size, hs]

theorem framed_doBody {n : Nat} (hc : c.strict = false) (hp : ReadsStatement c n p q)
    (hn : s.size < n) : Framed c s (doBody p) (doBody q) fun _ s' => s'.size < s.size := by
  have h0 := Frame.floor_eq_zero hc
  unfold doBody
  refine .repeated (I := fun _ s' => s'.size ≤ s.size) (Nat.le_refl _) fun body s' hle _ => ?_
  refine .accept (by simp [IsInner]) (by omega) (fun _ hf hlt => ?_) fun _ => ?_
  · exact .expectSemicolon hf fun hlt₁ => .pure (show _ < _ by omega)
  refine .atEnd (.atStepBoundary ?_)
  split
  · exact .peek (.throw (by omega))
  · rename_i hend
    refine .acceptSemicolon (fun hlt => .pure ⟨by omega, hlt⟩) fun _ => ?_
    refine (Framed.recover_lt (hp s' (by omega) (by omega)) (size_pos_of_not_end hend)).bind
      fun r s₁ h₁ => ?_
    cases r with
    | none => exact .pure ⟨by omega, h₁⟩
    | some statement => exact .pure ⟨by omega, h₁⟩

theorem framed_conditionLoop {test : Expression → LoopTest} (hc : c.strict = false)
    (hp : ReadsStatement c s.size p q) (hk : IsInner s.next.kind) :
    Framed c s (conditionLoop p test) (conditionLoop q test) fun _ s' => s'.size < s.size := by
  have h0 := Frame.floor_eq_zero hc
  unfold conditionLoop
  refine .read hk (by omega) fun hf hlt => ?_
  refine .expectSymbol (by simp) hf fun hf₁ hlt₁ => ?_
  refine (framed_expression hf₁).bind fun condition s₂ h₂ => ?_
  have hsize := h₂.size
  refine .expectSymbol (by simp) h₂.floor fun hf₃ hlt₃ => .expectSemicolon hf₃ fun hlt₄ => ?_
  exact (framed_doBody hc hp (by omega)).bind fun body s₅ hlt₅ => .pure (by omega)

theorem framed_rangeLoop (hc : c.strict = false) (hp : ReadsStatement c s.size p q) :
    Framed c s (rangeLoop p) (rangeLoop q) fun _ s' => s'.size < s.size := by
  have h0 := Frame.floor_eq_zero hc
  unfold rangeLoop
  refine .expectName (by omega) fun index _ hf hlt => ?_
  refine .expectSymbol (by simp) hf fun hf₁ hlt₁ => ?_
  refine (framed_expression hf₁).bind fun start s₂ h₂ => ?_
  have hsize₂ := h₂.size
  refine .expectKeyword h₂.floor fun hf₃ hlt₃ => ?_
  refine (framed_expression hf₃).bind fun stop s₄ h₄ => ?_
  have hsize₄ := h₄.size
  have hrest {s₅ : State} {increment : Option Expression} (hlt₅ : s₅.size ≤ s₄.size) :
      Framed c s₅
        (do expectSemicolon; return StepStatement.iterate index start stop increment (← doBody p))
        (do expectSemicolon; return StepStatement.iterate index start stop increment (← doBody q))
        fun _ s' => s'.size < s.size := by
    refine .expectSemicolon (by omega) fun hlt₆ => ?_
    exact (framed_doBody hc hp (by omega)).bind fun body s₇ hlt₇ => .pure (by omega)
  refine .accept (by simp [IsInner]) h₄.floor (fun _ hf₅ hlt₅ => ?_) fun _ => ?_
  · simp only [if_true, map_eq_pure_bind, bind_assoc, pure_bind]
    refine (framed_expression hf₅).bind fun increment s₆ h₆ => hrest ?_
    have hsize₆ := h₆.size
    omega
  · exact hrest (Nat.le_refl _)

theorem framed_doStatement (hc : c.strict = false) (hp : ReadsStatement c s.size p q)
    (hk : IsInner s.next.kind) :
    Framed c s (doStatement p) (doStatement q) fun _ s' => s'.size < s.size := by
  have h0 := Frame.floor_eq_zero hc
  unfold doStatement
  refine .read hk (by omega) fun hf hlt => ?_
  refine .acceptSemicolon (fun hlt₁ => ?_) fun _ => .peek ?_
  · exact (framed_doBody hc hp (by omega)).bind fun body s₂ hlt₂ => .pure (by omega)
  have hp' : ReadsStatement c s.step.size p q := fun s' hs' => hp s' (by omega)
  split
  · rename_i hk
    exact (framed_conditionLoop hc hp' (by simp [IsInner, hk])).mono fun _ s' h => by omega
  · rename_i hk
    exact (framed_conditionLoop hc hp' (by simp [IsInner, hk])).mono fun _ s' h => by omega
  · exact (framed_rangeLoop hc hp').mono fun _ s' h => by omega

/-! ### Declarations -/

theorem framed_arraySize (hc : c.strict = false) :
    Framed c s arraySize arraySize fun _ s' => s'.size ≤ s.size := by
  have h0 := Frame.floor_eq_zero hc
  unfold arraySize
  refine .accept (by simp [IsInner]) (by omega) (fun _ hf hlt => .pure (by omega)) fun _ => ?_
  refine .advance ?_
  have hle := size_step_le s
  split
  · split
    · exact .pure hle
    · exact .throw (by omega)
  · exact .throw (by omega)

theorem framed_elementKind (hs : c.floor ≤ s.size) :
    Framed c s elementKind elementKind fun _ s' => s'.size ≤ s.size := by
  unfold elementKind
  refine .accept (by simp [IsInner]) hs (fun _ hf hlt => .peek ?_) fun _ => .pure (Nat.le_refl _)
  split
  · rename_i x hk
    exact .read (by simp [IsInner, hk]) hf fun hf₁ hlt₁ => .pure (by omega)
  · exact .pure (by omega)

theorem framed_liftExcept {α : Type} {r : Except Error α} (hs : c.floor ≤ s.size) :
    Framed c s (arrayStatement.liftExcept r) (arrayStatement.liftExcept r) fun _ s' => s' = s := by
  cases r with
  | ok a => exact .pure rfl
  | error e => exact .throw hs

theorem framed_arrayStatement (hc : c.strict = false) (hk : IsInner s.next.kind) :
    Framed c s arrayStatement arrayStatement fun _ s' => s'.size < s.size := by
  have h0 := Frame.floor_eq_zero hc
  refine Framed.ready fun hr => ?_
  have hbound := hr.size
  unfold arrayStatement
  refine .read hk (by omega) fun hf hlt => ?_
  refine .expectName hf fun name _ hf₁ hlt₁ => .advance ?_
  have hle := size_step_le s.step.step
  cases hclose : closing? s.step.step.next.kind with
  | none => exact .previous (by omega) (.throw (by omega))
  | some close =>
    refine (framed_arraySize hc).bind fun size s₃ hle₃ => ?_
    refine .expectSymbol (closing_ne_semicolon hclose) (by omega) fun hf₄ hlt₄ => ?_
    refine (framed_elementKind hf₄).bind fun kind s₅ hle₅ => ?_
    refine (framed_nameList (by omega)).bind fun names s₆ ⟨hlt₆, hend₆⟩ => ?_
    refine (framed_liftExcept (by omega)).bind fun vars s₇ h₇ => ?_
    subst h₇
    refine .modify rfl rfl (fun hc => .inr (hend₆ hc)) (fun t ht => ?_)
      (.pure (show State.size _ < _ from ?_))
    · exact ⟨ht.ahead, ht.eof, ht.errors, ht.last, fun name hn => by
        simp only [List.contains_cons, ht.arrays name hn]⟩
    · simp only [State.size] at *
      omega

theorem framed_literal (hs : c.floor ≤ s.size) : Framed c s literal? literal? fun r s' =>
    c.floor ≤ s'.size ∧ s'.size ≤ s.size ∧ (r.isSome = true → s'.size < s.size) := by
  unfold literal?
  refine .peek ?_
  split
  · rename_i hk
    exact .read (by simp [IsInner, hk]) hs fun hf hlt => .pure ⟨hf, by omega, fun _ => hlt⟩
  · rename_i hk
    exact .read (by simp [IsInner, hk]) hs fun hf hlt => .pure ⟨hf, by omega, fun _ => hlt⟩
  · rename_i hk
    exact .read (by simp [IsInner, hk]) hs fun hf hlt => .pure ⟨hf, by omega, fun _ => hlt⟩
  · rename_i hk
    refine .peekNext (.inr (by simp [hk])) ?_
    split
    · rename_i x hk'
      refine .read (by simp [IsInner, hk]) hs fun hf hlt => ?_
      have hk' : s.step.next.kind = .number x := hk'
      exact .read (by simp [IsInner, hk']) hf fun hf₁ hlt₁ =>
        .pure ⟨hf₁, by omega, fun _ => by omega⟩
    · exact .throw hs
  · exact .pure ⟨hs, Nat.le_refl _, by simp⟩

theorem framed_retainStatement (hs : c.floor ≤ s.size) (hk : IsInner s.next.kind) :
    Framed c s retainStatement retainStatement fun _ s' => s'.size < s.size := by
  unfold retainStatement
  refine .read hk hs fun hf hlt => ?_
  refine (Framed.untilSemicolon hf ?_).bind ?_
  · rintro ⟨items, pending⟩ s' hf hle -
    refine (framed_literal hf).bind fun r s₁ ⟨hf₁, hle₁, hlt₁⟩ => ?_
    cases r with
    | some initial => exact .pure ⟨hf₁, hlt₁ rfl⟩
    | none => exact (framed_nameOrRange hf₁).bind fun names s₂ ⟨hf₂, hlt₂⟩ => .pure ⟨hf₂, by omega⟩
  · rintro ⟨items, pending⟩ s₁ ⟨-, hf₁, hle₁⟩
    exact .expectSemicolon hf₁ fun hlt₂ => .pure (by omega)

theorem framed_lengthStatement (hs : c.floor ≤ s.size) (hk : IsInner s.next.kind) :
    Framed c s lengthStatement lengthStatement fun _ s' => s'.size < s.size := by
  unfold lengthStatement
  refine .read hk hs fun hf hlt => ?_
  refine (Framed.untilSemicolon hf ?_).bind ?_
  · rintro ⟨items, pending⟩ s' hf hle -
    refine (Framed.acceptOrNot (by simp [IsInner]) hf).bind ?_
    rintro character s₁ ⟨hf₁, hle₁⟩
    refine .peek ?_
    split
    · rename_i x hk
      refine .read (by simp [IsInner, hk]) hf₁ fun hf₂ hlt₂ => ?_
      split
      · exact .throw hf₂
      · split
        · exact .throw hf₂
        · exact .pure ⟨hf₂, by omega⟩
    · refine (framed_nameOrRange hf₁).bind ?_
      rintro names s₂ ⟨hf₂, hlt₂⟩
      exact .pure ⟨hf₂, by omega⟩
  · rintro ⟨items, pending⟩ s₁ ⟨-, hf₁, hle₁⟩
    dsimp only
    split
    · exact .expectSemicolon hf₁ fun hlt₂ => .pure (by omega)
    · exact .peek (.throw hf₁)

theorem framed_inputStatement (hs : c.floor ≤ s.size) (hk : IsInner s.next.kind) :
    Framed c s inputStatement inputStatement fun _ s' => s'.size < s.size := by
  refine Framed.ready fun hr => ?_
  have hbound := hr.size
  unfold inputStatement
  refine .read hk hs fun hf hlt => ?_
  refine (Framed.untilSemicolon hf fun fields s' hf hle _ => ?_).bind
    fun fields s₁ ⟨_, hf₁, hle₁⟩ => ?_
  · refine .accept (by simp [IsInner]) hf (fun _ hf₁ hlt₁ => ?_) fun _ => ?_
    · cases markCharacter fields with
      | some marked => exact .pure ⟨hf₁, hlt₁⟩
      | none => exact .previous (by omega) (.throw hf₁)
    · exact .expectName hf fun name _ hf₁ hlt₁ => .pure ⟨hf₁, hlt₁⟩
  · exact .expectSemicolon hf₁ fun hlt₂ => .pure (by omega)

theorem framed_dataLinesStatement (hc : c.strict = false) (hk : IsInner s.next.kind) :
    Framed c s dataLinesStatement dataLinesStatement fun _ s' => s'.size < s.size := by
  have h0 := Frame.floor_eq_zero hc
  unfold dataLinesStatement
  refine .read hk (by omega) fun hf hlt => .expectSemicolon hf fun hlt₁ => .advance ?_
  have hle := size_step_le s.step.step
  split
  · exact .expectSemicolon (by omega) fun hlt₃ => .pure (by omega)
  · exact .throw (by omega)

theorem framed_keywordStatement {rest rest' : Parser StepStatement} (hk : IsInner s.next.kind)
    (hs : c.floor ≤ s.size)
    (h : c.floor ≤ s.step.size → Framed c s.step rest rest' fun _ s' => s'.size < s.step.size) :
    Framed c s (keywordStatement rest) (keywordStatement rest') fun _ s' => s'.size < s.size := by
  unfold keywordStatement
  exact .read hk hs fun hf hlt => (h hf).mono fun _ s' h' => by omega

theorem framed_statementBody (hp : ReadsStatement c s.size p q) (hs : c.floor ≤ s.size) :
    Framed c s (statementBody p) (statementBody q) fun _ s' => s'.size < s.size := by
  unfold statementBody
  refine .ready fun hr => .peek ?_
  have hlate (hk : checksLate s.next.kind = true) : c.strict = false := strict_of_late hr hk
  split <;> rename_i hk
  · exact .advance (.pure (size_step hr (by simp [hk])))
  · exact framed_keywordStatement (by simp [IsInner, hk]) hs fun _ =>
      (framed_datasetList (hlate (by rw [hk]; rfl))).bind fun _ _ h => .pure h
  · exact framed_keywordStatement (by simp [IsInner, hk]) hs fun _ =>
      (framed_datasetList (hlate (by rw [hk]; rfl))).bind fun _ _ h => .pure h
  · exact framed_keywordStatement (by simp [IsInner, hk]) hs fun _ =>
      (framed_byList (hlate (by rw [hk]; rfl))).bind fun _ _ h => .pure h
  · exact framed_ifStatement hp hs (by simp [IsInner, hk])
  · have hc := tidy_of_compound hr (by rw [hk]; rfl)
    exact framed_doStatement hc.2 hp (by simp [IsInner, hk])
  · exact framed_arrayStatement (hlate (by rw [hk]; rfl)) (by simp [IsInner, hk])
  · exact framed_keywordStatement (by simp [IsInner, hk]) hs fun hf =>
      (framed_nameList hf).bind fun _ _ h => .pure h.1
  · exact framed_keywordStatement (by simp [IsInner, hk]) hs fun hf =>
      (framed_nameList hf).bind fun _ _ h => .pure h.1
  · exact framed_retainStatement hs (by simp [IsInner, hk])
  · exact framed_lengthStatement hs (by simp [IsInner, hk])
  · exact framed_inputStatement hs (by simp [IsInner, hk])
  · exact framed_dataLinesStatement (hlate (by rw [hk]; rfl)) (by simp [IsInner, hk])
  · exact framed_keywordStatement (by simp [IsInner, hk]) hs fun hf =>
      (framed_nameList hf).bind fun _ _ h => .pure h.1
  · exact framed_keywordStatement (by simp [IsInner, hk]) hs fun hf =>
      .expectSemicolon hf fun hlt => .pure hlt
  · exact framed_keywordStatement (by simp [IsInner, hk]) hs fun hf =>
      .expectSemicolon hf fun hlt => .pure hlt
  · exact .throw hs
  · exact .throw hs

theorem framed_nextIsSubscript {name : String} {f g : Bool → Parser α} {Q : α → State → Prop}
    (hname : s.next.name? = some name)
    (h : ∀ b, (b = true → IsInner s.second.kind) → Framed c s (f b) (g b) Q) :
    Framed c s (nextIsSubscript name >>= f) (nextIsSubscript name >>= g) Q := by
  simp only [nextIsSubscript, bind_assoc]
  refine .ready fun hr => .peekNext (.inr (isInner_of_name hname).1) ?_
  split <;> try rename_i hk
  · exact h true fun _ => by simp [IsInner, hk]
  · exact h true fun _ => by simp [IsInner, hk]
  · exact .isArray (watched_of_call hr hname hk) (h _ fun _ => by simp [IsInner, hk])
  · exact h false (by simp)

theorem framed_statementUpTo {d d' : Nat} (hd : s.size < d) (hd' : s.size < d')
    (hs : c.floor ≤ s.size) :
    Framed c s (statementUpTo d) (statementUpTo d') fun _ s' => s'.size < s.size := by
  induction d generalizing d' s with
  | zero => omega
  | succ d ih =>
    obtain ⟨d', rfl⟩ : ∃ k, d' = k + 1 := ⟨d' - 1, by omega⟩
    have hp : ReadsStatement c s.size (statementUpTo d) (statementUpTo d') :=
      fun s' hlt hf => ih (by omega) (by omega) hf
    unfold statementUpTo
    refine .peek ?_
    cases hname : s.next.name? with
    | none => exact framed_statementBody hp hs
    | some name =>
      refine .nextIsAssign (.inr (isInner_of_name hname).1) ?_
      split
      · exact framed_assignment hs
      · refine framed_nextIsSubscript hname fun b hb => ?_
        cases b with
        | true => exact framed_elementAssignment hs (hb rfl)
        | false => exact framed_statementBody hp hs

theorem framed_stepStatement (hs : c.floor ≤ s.size) :
    Framed c s stepStatement stepStatement fun _ s' => s'.size < s.size := by
  unfold stepStatement
  exact .get fun t ht => framed_statementUpTo (Nat.lt_succ_self _) (Nat.lt_succ_of_le ht) hs

/-! ### Settings -/

theorem framed_optionValue (hc : c.strict = false) :
    Framed c s optionValue optionValue fun _ s' => s'.size ≤ s.size := by
  have h0 := Frame.floor_eq_zero hc
  unfold optionValue
  refine .advance ?_
  have hle := size_step_le s
  split
  · exact .pure hle
  · exact .pure hle
  · split
    · exact .pure hle
    · exact .throw (by omega)

theorem framed_optionsStatement (hc : c.strict = false) (hk : IsInner s.next.kind) :
    Framed c s optionsStatement optionsStatement fun _ s' => s'.size < s.size := by
  have h0 := Frame.floor_eq_zero hc
  unfold optionsStatement
  refine .read hk (by omega) fun hf hlt => ?_
  refine (Framed.untilSemicolon hf fun settings s' hf hle _ => ?_).bind
    fun settings s₁ ⟨_, hf₁, hle₁⟩ => ?_
  · refine .expectName hf fun name _ hf₁ hlt₁ => ?_
    refine .accept (by simp [IsInner]) hf₁ (fun _ hf₂ hlt₂ => ?_) fun _ => .pure ⟨hf₁, hlt₁⟩
    exact (framed_optionValue hc).bind fun value s₃ hle₃ => .pure ⟨by omega, by omega⟩
  · exact .expectSemicolon hf₁ fun hlt₂ => .pure (by omega)

theorem framed_libnameOptions (hc : c.strict = false) : Framed c s libnameOptions libnameOptions
    fun _ s' => s'.size ≤ s.size := by
  have h0 := Frame.floor_eq_zero hc
  refine Framed.ready fun hr => ?_
  have hbound := hr.size
  unfold libnameOptions
  refine (Framed.untilSemicolon (by omega) fun readOnly s' hf hle _ => ?_).mono
    fun _ s' h => h.2.2
  refine .expectName hf fun option _ hf₁ hlt₁ => .expectSymbol (by simp) hf₁ fun hf₂ hlt₂ => ?_
  refine (framed_optionValue hc).bind fun value s₃ hle₃ => ?_
  split
  · exact .pure ⟨by omega, by omega⟩
  · exact .previous (by omega) (.throw (by omega))

theorem framed_libnameStatement (hc : c.strict = false) (hk : IsInner s.next.kind) :
    Framed c s libnameStatement libnameStatement fun _ s' => s'.size < s.size := by
  have h0 := Frame.floor_eq_zero hc
  have hclose {s₁ : State} (libref : String) (engine : Option String) (path : String)
      (hlt : s₁.size < s.size) :
      let p : Parser Statement := do
        let readOnly ← libnameOptions
        expectSemicolon
        return .libname libref engine path readOnly
      Framed c s₁ p p fun _ s' => s'.size < s.size := by
    refine (framed_libnameOptions hc).bind fun readOnly s₂ hle₂ => ?_
    exact .expectSemicolon (by omega) fun hlt₃ => .pure (by omega)
  unfold libnameStatement
  refine .read hk (by omega) fun hf hlt => .expectName hf fun libref _ hf₁ hlt₁ => .peek ?_
  dsimp only
  split
  · rename_i name hname
    refine .read (isInner_of_name hname) hf₁ fun hf₂ hlt₂ => .advance ?_
    have hle := size_step_le s.step.step.step
    split
    · exact hclose libref _ _ (by omega)
    · exact .throw (by omega)
  · refine .advance ?_
    have hle := size_step_le s.step.step
    split
    · exact hclose libref _ _ (by omega)
    · exact .throw (by omega)

theorem framed_titleStatement (hs : c.floor ≤ s.size) (hk : IsInner s.next.kind) :
    Framed c s titleStatement titleStatement fun _ s' => s'.size < s.size := by
  unfold titleStatement
  refine .read hk hs fun hf hlt => .peek ?_
  split
  · rename_i text hk'
    exact .read (by simp [IsInner, hk']) hf fun hf₁ hlt₁ =>
      .expectSemicolon hf₁ fun hlt₂ => .pure (by omega)
  · exact .expectSemicolon hf fun hlt₁ => .pure (by omega)

theorem framed_macroLetStatement (hs : c.floor ≤ s.size) (hk : IsInner s.next.kind) :
    Framed c s macroLetStatement macroLetStatement fun _ s' => s'.size < s.size := by
  unfold macroLetStatement
  refine .read hk hs fun hf hlt => .expectName hf fun name _ hf₁ hlt₁ => ?_
  refine .expectSymbol (by simp) hf₁ fun hf₂ hlt₂ => ?_
  refine (Framed.untilSemicolon hf₂ fun parts s' hf hle hn => ?_).bind
    fun parts s₁ ⟨_, hf₁, hle₁⟩ => ?_
  · refine .atEnd ?_
    dsimp only
    split
    · exact (Framed.throw hf).bind fun _ _ h => False.elim h
    · rename_i hend
      have hpos : 0 < s'.size := by simpa [State.size, List.length_pos_iff] using hend
      refine .ready fun hr => .advance ?_
      have hstep := And.intro (floor_le_step hr hn hf) (size_step_of_pos hpos)
      split
      · exact .pure hstep
      · exact .pure hstep
  · exact .expectSemicolon hf₁ fun hlt₂ => .pure (by omega)

theorem out_setting_semicolon (h : s.next.kind = .symbol .semicolon) :
    out setting? s = (.ok none, s) := by
  unfold setting?
  rw [out_bind]
  change out (if (s.second.kind == .symbol .assign) = true then pure none else _) s = _
  split
  · rfl
  · rw [out_bind_of_ok (out_peek s), h]
    rfl

theorem framed_setting (hs : c.floor ≤ s.size) : Framed c s setting? setting? fun r s' =>
    (r = none → s' = s) ∧ (r.isSome = true → s'.size < s.size) := by
  by_cases hsemi : s.next.kind = .symbol .semicolon
  · refine .of_out (out_setting_semicolon hsemi) (fun t ht => ?_) ⟨fun _ => rfl, fun h => nomatch h⟩
    exact out_setting_semicolon (ht ▸ hsemi)
  unfold setting?
  refine .ready fun hr => .nextIsAssign (.inr hsemi) ?_
  have hnone : Framed c s (pure none) (pure none) fun (r : Option Statement) s' =>
      (r = none → s' = s) ∧ (r.isSome = true → s'.size < s.size) :=
    .pure ⟨fun _ => rfl, fun h => nomatch h⟩
  have hsome {p : Parser Statement} (hp : Framed c s p p fun _ s' => s'.size < s.size) :
      Framed c s (some <$> p) (some <$> p) fun r s' =>
        (r = none → s' = s) ∧ (r.isSome = true → s'.size < s.size) := by
    rw [map_eq_pure_bind]
    exact hp.bind fun a s' h => .pure ⟨(fun h => nomatch h), fun _ => h⟩
  have hlate (hk : checksLate s.next.kind = true) : c.strict = false := strict_of_late hr hk
  split
  · exact hnone
  refine .peek ?_
  split <;> try rename_i hk
  · exact hsome (framed_optionsStatement (hlate (by rw [hk]; rfl)) (by simp [IsInner, hk]))
  · exact hsome (framed_libnameStatement (hlate (by rw [hk]; rfl)) (by simp [IsInner, hk]))
  · exact hsome (framed_titleStatement hs (by simp [IsInner, hk]))
  · exact hsome (framed_macroLetStatement hs (by simp [IsInner, hk]))
  · exact .throw hs
  · exact hnone

theorem framed_finishStep (hs : c.floor ≤ s.size) : Framed c s finishStep finishStep
    fun _ s' => s'.size ≤ s.size := by
  unfold finishStep
  refine .peek ?_
  split <;> try rename_i hk
  · refine .read (by simp [IsInner, hk]) hs fun hf hlt => ?_
    rw [← bind_pure expectSemicolon]
    exact .expectSemicolon hf fun hlt₁ => .pure (by omega)
  · refine .read (by simp [IsInner, hk]) hs fun hf hlt => ?_
    rw [← bind_pure expectSemicolon]
    exact .expectSemicolon hf fun hlt₁ => .pure (by omega)
  · exact .pure (Nat.le_refl _)

end StepLang.Parser
