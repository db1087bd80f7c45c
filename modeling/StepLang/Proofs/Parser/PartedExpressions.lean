import StepLang.Proofs.Parser.Parted

/-! # Expressions among parted words

The word `ELSE IF` is no part of an expression or of a list of names, and each of them ends before
it. So it makes no difference to them whether the word is parted.
-/

namespace StepLang.Parser

variable {α β : Type} {k : Bool} {s t : State}

namespace Shadows

variable {T : β → β → State → State → Prop} {f g : Bool → Parser β}

theorem acceptSymbol {c : Symbol}
    (ht : Level s t → t.step.size < t.size → Shadows k s.step t.step (f true) (g true) T)
    (hf : Shadows k s t (f false) (g false) T) :
    Shadows k s t (Parser.accept (.symbol c) >>= f) (Parser.accept (.symbol c) >>= g) T :=
  accept (by simp) (by simp) (fun _ => ht) fun _ => hf

theorem acceptOrNot {c : Symbol} :
    Shadows k s t (Parser.accept (.symbol c)) (Parser.accept (.symbol c)) Agree := by
  rw [← bind_pure (Parser.accept (.symbol c))]
  exact acceptSymbol (fun _ _ => .pure rfl) (.pure rfl)

theorem checkBoth {c : Token.Kind} {m m' n n' : Parser β}
    (hc : c ≠ .keyword .ELSEIF ∧ c ≠ .keyword .ELSE)
    (ht : s.next.kind = c → Shadows k s t m m' T) (hf : Shadows k s t n n' T) :
    Shadows k s t
      (Parser.check c >>= fun a => Parser.peekNext >>= fun u =>
        if (a && u.name?.isSome) = true then m else n)
      (Parser.check c >>= fun a => Parser.peekNext >>= fun u =>
        if (a && u.name?.isSome) = true then m' else n') T := by
  refine check hc (peekNext ?_)
  by_cases h : s.next.kind = c
  · refine twin fun htwin => ?_
    rw [(htwin.level (h ▸ hc.1)).second_name?]
    simp only [h, beq_self_eq_true, Bool.true_and]
    split
    · exact ht h
    · exact hf
  · simpa only [beq_eq_false_iff_ne.mpr h, Bool.false_and, Bool.false_eq_true, if_false] using hf

end Shadows

/-! ### Names -/

theorem shadows_datasetRef : Shadows true s t datasetRef datasetRef (AgreeBehind t) := by
  unfold datasetRef
  refine .expectName fun first _ _ hlt => ?_
  refine .acceptSymbol (fun _ hlt₁ => ?_) (.pure ⟨rfl, hlt⟩)
  exact .expectName fun name _ _ hlt₂ => .pure ⟨rfl, by omega⟩

theorem shadows_nameOrRange : Shadows true s t nameOrRange nameOrRange (AgreeBehind t) := by
  unfold nameOrRange
  refine .expectName fun first _ _ hlt => .checkBoth (by simp) (fun hk => ?_) (.pure ⟨rfl, hlt⟩)
  refine .read (by simp [hk]) fun _ hlt₁ => .peek (.expectName fun last _ _ hlt₂ => ?_)
  cases numberedRange? first last with
  | none => exact .throw
  | some names => exact .pure ⟨rfl, by omega⟩

theorem shadows_nameList : Shadows true s t nameList nameList (AgreeBehind t) := by
  rw [nameList_eq]
  refine (Shadows.list fun names s' t' _ => ?_).bind ?_
  · exact shadows_nameOrRange.bind fun _ _ _ _ _ h => .pure ⟨by rw [h.1], h.2⟩
  · rintro _ names s₁ t₁ hle rfl
    exact .expectSemicolon fun hlt => .pure ⟨rfl, by omega⟩

theorem shadows_datasetItem (refs : List DatasetRef) :
    Shadows true s t (datasetItem refs) (datasetItem refs) (AgreeBehind t) :=
  shadows_datasetRef.bind fun _ _ _ _ _ h => .pure ⟨by rw [h.1], h.2⟩

theorem shadows_datasetList : Shadows true s t datasetList datasetList (AgreeBehind t) := by
  rw [datasetList_eq]
  refine (Shadows.list fun refs s' t' _ => shadows_datasetItem refs).bind ?_
  rintro _ refs s₁ t₁ hle rfl
  refine .expectSemicolon fun hlt => ?_
  split
  · exact .previous .throw
  · exact .pure ⟨rfl, by omega⟩

theorem shadows_byItem (read : List ByVariable × Bool) :
    Shadows true s t (byItem read) (byItem read) (AgreeBehind t) := by
  unfold byItem
  refine .checkBoth (by simp) (fun hk => ?_) ?_
  · exact .read (by simp [hk]) fun _ hlt => .pure ⟨rfl, hlt⟩
  · exact .expectName fun name _ _ hlt => .pure ⟨rfl, hlt⟩

theorem shadows_byList : Shadows true s t byList byList (AgreeBehind t) := by
  rw [byList_eq]
  refine (Shadows.list fun read s' t' _ => shadows_byItem read).bind ?_
  rintro ⟨keys, descending⟩ _ s₁ t₁ hle rfl
  refine .expectSemicolon fun hlt => ?_
  split
  · exact .previous .throw
  · exact .pure ⟨rfl, by omega⟩

/-! ### Expressions -/

/-- The parsers read the same expression wherever fewer tokens are ahead of the second one. -/
def ShadowsNested (n : Nat) (e e' : Parser Expression) : Prop :=
  ∀ s t, t.size < n → Shadows true s t e e' (AgreeBehind t)

variable {e e' : Parser Expression} {n : Nat}

theorem shadows_subscript (he : ShadowsNested n e e') (hn : t.size ≤ n)
    (hk : s.next.kind ≠ .endOfInput) :
    Shadows true s t (subscript e) (subscript e') (AgreeBehind t) := by
  unfold subscript
  refine .twin fun ht => ?_
  have hlt := ht.size_step hk
  refine .advanceOr (fun hjoint => ?_) fun hl => ?_
  · rw [hjoint]
    rintro a s' ⟨⟩
  rw [hl.next.kind]
  cases closing? s.next.kind with
  | none => exact .throw
  | some close =>
    refine (he s.step t.step (by omega)).bind ?_
    rintro _ index s₁ t₁ hle ⟨rfl, hlt₁⟩
    exact .expectSymbol fun _ _ hlt₂ => .pure ⟨rfl, by omega⟩

theorem shadows_atVariableList {f g : Bool → Parser β} {T : β → β → State → State → Prop}
    (h : ∀ b, (b = true → ∃ word, s.next.kind = .name word) → Shadows k s t (f b) (g b) T) :
    Shadows k s t (atVariableList >>= f) (atVariableList >>= g) T := by
  simp only [atVariableList, bind_assoc]
  refine .peek (.twin fun ht => ?_)
  rcases ht.level_or_split with hl | hs
  · rw [hl.next.kind]
    split
    · rename_i word hk
      simp only [bind_assoc, pure_bind]
      refine .peekNext ?_
      rw [hl.second_name?]
      exact h _ fun _ => ⟨word, hk⟩
    · exact h false fun hb => absurd hb Bool.false_ne_true
  · rw [hs.joint, hs.first]
    exact h false fun hb => absurd hb Bool.false_ne_true

theorem shadows_variablePass (names : List String) :
    Shadows true s t (variablePass names) (variablePass names) (Pass.Both t Agree Agree) := by
  unfold variablePass
  refine .acceptSymbol (fun _ hlt => .pure rfl) ?_
  refine .expectName fun first _ _ hlt => .acceptSymbol (fun _ hlt₁ => ?_) (.pure ⟨rfl, hlt⟩)
  exact .expectName fun last _ _ hlt₂ => .pure ⟨rfl, by omega⟩

theorem shadows_arguments (he : ShadowsNested n e e') (hn : t.size < n) :
    Shadows true s t (arguments e) (arguments e') Agree := by
  rw [arguments_eq, arguments_eq]
  refine .acceptSymbol (fun _ _ => .pure rfl) (shadows_atVariableList fun b hb => ?_)
  cases b with
  | true =>
    obtain ⟨word, hk⟩ := hb rfl
    refine .read (by simp [hk]) fun _ _ => ?_
    refine (Shadows.loop fun names s' t' _ => shadows_variablePass names).bind ?_
    rintro _ names s₁ t₁ hle rfl
    exact .pure rfl
  | false =>
    refine Shadows.loop fun args s' t' hle => (he s' t' (by omega)).bind ?_
    rintro _ arg s₁ t₁ hle₁ ⟨rfl, hlt₁⟩
    refine .acceptSymbol (fun _ hlt₂ => .pure ⟨rfl, by omega⟩) ?_
    exact .expectSymbol fun _ _ hlt₂ => .pure rfl

theorem shadows_nameSuffix (name : String) (he : ShadowsNested n e e') (hn : t.size < n) :
    Shadows true s t (nameSuffix e name) (nameSuffix e' name) Agree := by
  have hsub (hk : s.next.kind ≠ .endOfInput) : Shadows true s t
      (do return Expression.element name (← subscript e))
      (do return Expression.element name (← subscript e'))
      Agree :=
    (shadows_subscript he hn.le hk).bind fun _ _ _ _ _ h => .pure (by rw [h.1])
  unfold nameSuffix
  refine .peek (.twin fun ht => ?_)
  rcases ht.level_or_split with hl | hs
  · rw [hl.next.kind]
    split
    · rename_i hk
      exact hsub (by simp [hk])
    · rename_i hk
      exact hsub (by simp [hk])
    · rename_i hk
      refine .isArray ?_
      split
      · exact hsub (by simp [hk])
      · refine .read (by simp [hk]) fun _ hlt => ?_
        exact (shadows_arguments he (by omega)).bind fun _ _ _ _ _ h => .pure (by rw [h])
    · exact .pure rfl
  · rw [hs.joint, hs.first]
    exact .pure rfl

theorem shadows_primary (he : ShadowsNested n e e') (hn : t.size ≤ n) :
    Shadows true s t (primary e) (primary e') (AgreeBehind t) := by
  unfold primary
  refine .peek (.twin fun ht => ?_)
  rcases ht.level_or_split with hl | hs
  · rw [hl.next.kind]
    split
    · rename_i hk
      exact .read (by simp [hk]) fun _ hlt => .pure ⟨rfl, hlt⟩
    · rename_i hk
      exact .read (by simp [hk]) fun _ hlt => .pure ⟨rfl, hlt⟩
    · rename_i hk
      exact .read (by simp [hk]) fun _ hlt => .pure ⟨rfl, hlt⟩
    · rename_i hk
      exact .read (by simp [hk]) fun _ hlt => .pure ⟨rfl, hlt⟩
    · rename_i hk
      refine .read (by simp [hk]) fun _ hlt => (he s.step t.step (by omega)).bind ?_
      rintro _ inner s₁ t₁ hle ⟨rfl, hlt₁⟩
      exact .expectSymbol fun _ _ hlt₂ => .pure ⟨rfl, by omega⟩
    · rw [hl.next.name?]
      cases hname : s.next.name? with
      | none => exact .throw
      | some name =>
        have hlt := ht.size_step (isInner_of_name hname).2
        exact .advance hl fun _ => (shadows_nameSuffix name he (by omega)).behind hlt
  · refine .vacuous ?_
    rw [hs.joint_name?, hs.joint]
    rintro a s' ⟨⟩

theorem shadows_unary {m m' : Nat} (he : ShadowsNested n e e') (hn : t.size ≤ n)
    (hm : t.size < m') : Shadows true s t (unary e m) (unary e' m') (AgreeBehind t) := by
  induction m generalizing m' s t with
  | zero => exact .throw
  | succ m ih =>
    obtain ⟨m', rfl⟩ : ∃ j, m' = j + 1 := ⟨m' - 1, by omega⟩
    unfold unary
    refine .peek (.twin fun ht => ?_)
    rcases ht.level_or_split with hl | hs
    · rw [hl.next.kind]
      cases hop : unaryOp? s.next.kind with
      | none => exact shadows_primary he hn
      | some op =>
        have hend : s.next.kind ≠ .endOfInput := by
          intro hk
          simp [hk, unaryOp?] at hop
        have hlt := ht.size_step hend
        refine .advance hl fun _ => (ih (by omega) (by omega)).bind ?_
        rintro _ operand s₁ t₁ hle ⟨rfl, hlt₁⟩
        exact .pure ⟨rfl, by omega⟩
    · rw [hs.joint, hs.first]
      exact shadows_primary he hn

theorem shadows_operationPass {d d' k : Nat} (left : Expression)
    (hd : ∀ k, Shadows true s.step t.step (operation d k) (operation d' k) (AgreeBehind t.step)) :
    Shadows true s t (operationPass d k left) (operationPass d' k left)
      (Pass.Both t Agree Agree) := by
  unfold operationPass
  refine .peek (.twin fun ht => ?_)
  rcases ht.level_or_split with hl | hs
  · rw [hl.next.kind]
    cases hop : binaryOp? s.next.kind with
    | none => exact .pure rfl
    | some op =>
      have hend : s.next.kind ≠ .endOfInput := by
        intro hk
        simp [hk, binaryOp?] at hop
      have hlt := ht.size_step hend
      dsimp only
      split
      · exact .pure rfl
      · refine .advance hl fun _ => (hd _).bind ?_
        rintro _ right s₁ t₁ hle ⟨rfl, hlt₁⟩
        exact .pure ⟨rfl, by omega⟩
  · rw [hs.joint, hs.first]
    exact .pure rfl

theorem shadows_operation {d d' k : Nat} (hd : t.size < d') :
    Shadows true s t (operation d k) (operation d' k) (AgreeBehind t) := by
  induction d generalizing d' k s t with
  | zero => exact .throw
  | succ d ih =>
    obtain ⟨d', rfl⟩ : ∃ j, d' = j + 1 := ⟨d' - 1, by omega⟩
    have hnested : ShadowsNested d' (operation d 1) (operation d' 1) := fun s t ht => ih ht
    rw [operation_eq, operation_eq]
    refine .get ((shadows_unary hnested (by omega) (Nat.lt_succ_self _)).bind ?_)
    rintro _ first s₁ t₁ hle ⟨rfl, hlt⟩
    refine Shadows.behind (Shadows.loop fun left s' t' hle' => ?_) hlt
    refine shadows_operationPass left fun k => ih ?_
    have := size_step_le t'
    omega

theorem shadows_expression : Shadows true s t expression expression (AgreeBehind t) :=
  .get (shadows_operation (Nat.lt_succ_self _))

end StepLang.Parser
