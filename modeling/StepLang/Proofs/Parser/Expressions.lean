import StepLang.Parser.Expression
import StepLang.Proofs.NumberPacking
import StepLang.Proofs.Parser.Frame

/-! # Reading names and expressions

Lists of names and expressions are read within a statement: their parsers stop before its semicolon,
declare nothing, and depend on the tokens that they read only. An expression that is read has no
minus before a number, no missing number, and no call of an array.
-/

namespace StepLang

/-- The expressions that have a text of their own: a minus before a number is part of the number, a
number is not missing, and an array is not called. -/
inductive Regular (arrays : List String) : Expression → Prop
  | number {x : Float} : x.isNaN = false → Regular arrays (.number x)
  | text (s : String) : Regular arrays (.text s)
  | missing : Regular arrays .missing
  | ref (name : String) : Regular arrays (.ref name)
  | macroRef (name : String) : Regular arrays (.macroRef name)
  | binary {left right : Expression} (op : BinaryOp) : Regular arrays left →
      Regular arrays right → Regular arrays (.binary op left right)
  | unary {op : UnaryOp} {e : Expression} : (op = .neg → ∀ x, e ≠ .number x) →
      Regular arrays e → Regular arrays (.unary op e)
  | call {function : String} {args : List Expression} :
      arrays.contains (Text.upper function) = false → (∀ a ∈ args, Regular arrays a) →
      Regular arrays (.call function args)
  | element {index : Expression} (array : String) : Regular arrays index →
      Regular arrays (.element array index)

namespace Parser

variable {c : Frame} {s : State}

/-! ### Names -/

theorem framed_datasetRef (hs : c.floor ≤ s.size) :
    Framed c s datasetRef datasetRef fun _ s' => c.floor ≤ s'.size ∧ s'.size < s.size := by
  unfold datasetRef
  refine .expectName hs fun first _ hf hlt => ?_
  refine .accept (by simp [IsInner]) hf (fun _ hf' hlt' => ?_) fun _ => .pure ⟨hf, hlt⟩
  exact .expectName hf' fun name _ hf'' hlt'' => .pure ⟨hf'', by omega⟩

theorem framed_nameOrRange (hs : c.floor ≤ s.size) :
    Framed c s nameOrRange nameOrRange fun _ s' => c.floor ≤ s'.size ∧ s'.size < s.size := by
  unfold nameOrRange
  refine .expectName hs fun first _ hf hlt => ?_
  refine .checkBoth (by simp) (fun hk _ => ?_) (.pure ⟨hf, hlt⟩)
  refine .read (by simp [IsInner, hk]) hf fun hf' hlt' => ?_
  refine .peek (.expectName hf' fun last _ hf'' hlt'' => ?_)
  cases numberedRange? first last with
  | none => exact .throw hf''
  | some names => exact .pure ⟨hf'', by omega⟩

theorem framed_nameList (hs : c.floor ≤ s.size) : Framed c s nameList nameList fun _ s' =>
    s'.size < s.size ∧ (c.tidy = true → s'.ahead = []) := by
  unfold nameList
  refine (Framed.untilSemicolon hs fun names s' hf hle _ => ?_).bind fun names s₁ ⟨_, hf, hle⟩ => ?_
  · exact (framed_nameOrRange hf).bind fun _ _ h => .pure h
  · exact .expectEnd hf fun hlt hend => .pure ⟨by omega, hend⟩

theorem Frame.floor_eq_zero (hc : c.strict = false) : c.floor = 0 := by simp [Frame.floor, hc]

theorem framed_datasetList (hc : c.strict = false) :
    Framed c s datasetList datasetList fun _ s' => s'.size < s.size := by
  have h0 := Frame.floor_eq_zero hc
  refine Framed.ready fun hr => ?_
  have hbound := hr.size
  unfold datasetList
  refine (Framed.untilSemicolon (by omega) fun refs s' hf hle _ => ?_).bind
    fun refs s₁ ⟨_, hf, hle⟩ => ?_
  · exact (framed_datasetRef hf).bind fun _ _ h => .pure h
  · refine .expectSemicolon hf fun hlt => ?_
    split
    · exact .previous (by omega) (.throw (by omega))
    · exact .pure (by omega)

theorem framed_byList (hc : c.strict = false) :
    Framed c s byList byList fun _ s' => s'.size < s.size := by
  have h0 := Frame.floor_eq_zero hc
  refine Framed.ready fun hr => ?_
  have hbound := hr.size
  unfold byList
  refine (Framed.untilSemicolon (by omega) ?_).bind ?_
  · rintro ⟨keys, descending⟩ s' hf hle -
    refine .checkBoth (by simp) (fun hk _ => ?_) ?_
    · exact .read (by simp [IsInner, hk]) hf fun hf' hlt => .pure ⟨hf', hlt⟩
    · exact .expectName hf fun name _ hf' hlt => .pure ⟨hf', hlt⟩
  · rintro ⟨keys, descending⟩ s₁ ⟨-, hf, hle⟩
    refine .expectSemicolon hf fun hlt => ?_
    split
    · exact .previous (by omega) (.throw (by omega))
    · exact .pure (by omega)

/-! ### Expressions -/

structure ReadExpression (c : Frame) (s : State) (e : Expression) (s' : State) : Prop where
  floor : c.floor ≤ s'.size
  size : s'.size < s.size
  arrays : s'.arrays = s.arrays
  regular : c.present = true → Regular s.arrays e

/-- The parsers read an expression from every state with fewer tokens ahead. -/
def ReadsNested (c : Frame) (n : Nat) (e e' : Parser Expression) : Prop :=
  ∀ s, s.size < n → c.floor ≤ s.size → Framed c s e e' (ReadExpression c s)

variable {e e' : Parser Expression}

theorem closing_ne_semicolon {k : Token.Kind} {close : Symbol} (h : closing? k = some close) :
    close ≠ .semicolon := by
  unfold closing? at h
  split at h <;> simp_all [eq_comm]

theorem framed_subscript (he : ReadsNested c s.size e e') (hs : c.floor ≤ s.size)
    (hk : IsInner s.next.kind) : Framed c s (subscript e) (subscript e') (ReadExpression c s) := by
  unfold subscript
  refine .read hk hs fun hf hlt => ?_
  cases hc : closing? s.next.kind with
  | none => exact .throw hf
  | some close =>
    refine (he s.step hlt hf).bind fun index s₁ h₁ => ?_
    have hsize := h₁.size
    refine .expectSymbol (closing_ne_semicolon hc) h₁.floor fun hf' hlt' => .pure ?_
    exact ⟨hf', by omega, h₁.arrays, h₁.regular⟩

theorem framed_atVariableList {f g : Bool → Parser α} {Q : α → State → Prop}
    (h : ∀ b, (b = true → ∃ word, s.next.kind = .name word) → Framed c s (f b) (g b) Q) :
    Framed c s (atVariableList >>= f) (atVariableList >>= g) Q := by
  simp only [atVariableList, bind_assoc]
  refine .peek ?_
  split
  · rename_i word hk
    simp only [bind_assoc, pure_bind]
    exact .peekNext (.inr (by simp [hk])) (h _ fun _ => ⟨word, hk⟩)
  · exact h false fun hb => nomatch hb

theorem framed_variableList (hs : c.floor ≤ s.size) (hk : IsInner s.next.kind) :
    Framed c s variableList variableList fun args s' => c.floor ≤ s'.size ∧ s'.size < s.size ∧
      s'.arrays = s.arrays ∧ ∀ a ∈ args, Regular s.arrays a := by
  unfold variableList
  refine .read hk hs fun hf hlt => ?_
  refine (Framed.repeated (I := fun _ s' => c.floor ≤ s'.size ∧ s'.size < s.size ∧
    s'.arrays = s.arrays) (Q := fun _ s' => c.floor ≤ s'.size ∧ s'.size < s.size ∧
    s'.arrays = s.arrays) ⟨hf, hlt, rfl⟩ fun names s' ⟨hf, hlt, ha⟩ _ => ?_).bind
      fun names s₁ ⟨hf, hlt, ha⟩ => .pure ⟨hf, hlt, ha, ?_⟩
  · refine .accept (by simp [IsInner]) hf (fun _ hf' hlt' => .pure ⟨hf', by omega, ha⟩) fun _ => ?_
    refine .expectName hf fun first _ hf' hlt' => ?_
    refine .accept (by simp [IsInner]) hf' (fun _ hf'' hlt'' => ?_) fun _ => ?_
    · exact .expectName hf'' fun last _ hf₃ hlt₃ => .pure ⟨⟨hf₃, by omega, ha⟩, by omega⟩
    · exact .pure ⟨⟨hf', by omega, ha⟩, by omega⟩
  · intro a ha'
    obtain ⟨name, -, rfl⟩ := List.mem_map.mp ha'
    exact .ref name

structure ReadArguments (c : Frame) (s : State) (args : List Expression) (s' : State) : Prop where
  floor : c.floor ≤ s'.size
  size : s'.size ≤ s.size
  arrays : s'.arrays = s.arrays
  regular : c.present = true → ∀ a ∈ args, Regular s.arrays a

theorem framed_arguments {n : Nat} (he : ReadsNested c n e e') (hn : s.size < n)
    (hs : c.floor ≤ s.size) :
    Framed c s (arguments e) (arguments e') (ReadArguments c s) := by
  unfold arguments
  refine .accept (by simp [IsInner]) hs (fun _ hf hlt => ?_) fun _ => ?_
  · exact .pure ⟨hf, by omega, rfl, fun _ a ha => nomatch ha⟩
  refine framed_atVariableList fun b hb => ?_
  cases b with
  | true =>
    obtain ⟨word, hk⟩ := hb rfl
    refine (framed_variableList hs (by simp [IsInner, hk])).mono ?_
    rintro args s' ⟨hf, hlt, ha, hargs⟩
    exact ⟨hf, by omega, ha, fun _ => hargs⟩
  | false =>
    refine Framed.repeated (I := ReadArguments c s)
      ⟨hs, Nat.le_refl _, rfl, fun _ a ha => nomatch ha⟩ fun args s' hargs _ => ?_
    have hsize := hargs.size
    refine (he s' (by omega) hargs.floor).bind fun arg s₁ h₁ => ?_
    have hsize₁ := h₁.size
    have hall : c.present = true → ∀ a ∈ args ++ [arg], Regular s.arrays a := by
      intro hp a ha
      rcases List.mem_append.mp ha with ha | ha
      · exact hargs.regular hp a ha
      · obtain rfl := List.mem_singleton.mp ha
        exact hargs.arrays ▸ h₁.regular hp
    have harrays := h₁.arrays.trans hargs.arrays
    refine .accept (by simp [IsInner]) h₁.floor (fun _ hf hlt => ?_) fun _ => ?_
    · exact .pure ⟨⟨hf, by omega, harrays, hall⟩, by omega⟩
    · exact .expectSymbol (by simp) h₁.floor fun hf hlt => .pure ⟨hf, by omega, harrays, hall⟩

/-- The name before an opening parenthesis is one that both runs take alike for an array or not. -/
theorem watched_of_call (hr : c.Ready s) {name : String} (hn : s.next.name? = some name)
    (hk : s.second.kind = .symbol .leftParen) : c.watched (Text.upper name) := by
  refine hr.calls _ ?_
  have hne := ne_nil_of_next hr (isInner_of_name hn).2
  obtain ⟨t, rest, ht⟩ := List.exists_cons_of_ne_nil hne
  rw [State.next, ht] at hn
  rw [State.second, ht] at hk
  cases rest with
  | nil => simp [hr.eof] at hk
  | cons u rest =>
    have hn : t.name? = some name := hn
    have hk : u.kind = .symbol .leftParen := hk
    simp [ht, callNames, hk, hn]

theorem framed_nameSuffix {name : String} {n : Nat} (he : ReadsNested c n e e') (hn : s.size < n)
    (hs : c.floor ≤ s.size)
    (hw : s.next.kind = .symbol .leftParen → c.watched (Text.upper name)) :
    Framed c s (nameSuffix e name) (nameSuffix e' name) fun i s' => c.floor ≤ s'.size ∧
      s'.size ≤ s.size ∧ s'.arrays = s.arrays ∧ (c.present = true → Regular s.arrays i) := by
  have hsub (hk : IsInner s.next.kind) : Framed c s
      (do return .element name (← subscript e)) (do return .element name (← subscript e'))
      fun i s' => c.floor ≤ s'.size ∧ s'.size ≤ s.size ∧ s'.arrays = s.arrays ∧
        (c.present = true → Regular s.arrays i) := by
    refine (framed_subscript (fun s' hs' => he s' (by omega)) hs hk).bind fun index s₁ h₁ => ?_
    have hsize := h₁.size
    exact .pure ⟨h₁.floor, by omega, h₁.arrays, fun hp => .element name (h₁.regular hp)⟩
  unfold nameSuffix
  refine .peek ?_
  split
  · rename_i hk
    exact hsub (by simp [IsInner, hk])
  · rename_i hk
    exact hsub (by simp [IsInner, hk])
  · rename_i hk
    refine .isArray (hw hk) ?_
    cases ha : s.arrays.contains (Text.upper name) with
    | true => exact hsub (by simp [IsInner, hk])
    | false =>
      refine .read (by simp [IsInner, hk]) hs fun hf hlt => ?_
      refine (framed_arguments he (by omega) hf).bind fun args s₁ h₁ => ?_
      have hsize := h₁.size
      exact .pure ⟨h₁.floor, by omega, h₁.arrays, fun hp => .call ha (h₁.regular hp)⟩
  · exact .pure ⟨hs, Nat.le_refl _, rfl, fun _ => .ref name⟩

theorem framed_primary {n : Nat} (he : ReadsNested c n e e') (hn : s.size ≤ n)
    (hs : c.floor ≤ s.size) :
    Framed c s (primary e) (primary e') (ReadExpression c s) := by
  unfold primary
  refine .ready fun hr => .peek ?_
  split
  · rename_i x hk
    refine .read (by simp [IsInner, hk]) hs fun hf hlt => .pure ⟨hf, hlt, rfl, fun hp => .number ?_⟩
    exact hr.present hp s.next (next_mem hr (by simp [hk])) x hk
  · rename_i text hk
    exact .read (by simp [IsInner, hk]) hs fun hf hlt => .pure ⟨hf, hlt, rfl, fun _ => .text text⟩
  · rename_i hk
    exact .read (by simp [IsInner, hk]) hs fun hf hlt => .pure ⟨hf, hlt, rfl, fun _ => .missing⟩
  · rename_i name hk
    exact .read (by simp [IsInner, hk]) hs fun hf hlt =>
      .pure ⟨hf, hlt, rfl, fun _ => .macroRef name⟩
  · rename_i hk
    refine .read (by simp [IsInner, hk]) hs fun hf hlt => ?_
    refine (he s.step (by omega) hf).bind fun inner s₁ h₁ => ?_
    have hsize := h₁.size
    exact .expectSymbol (by simp) h₁.floor fun hf' hlt' =>
      .pure ⟨hf', by omega, h₁.arrays, h₁.regular⟩
  · split
    · rename_i name hname
      refine .read (isInner_of_name hname) hs fun hf hlt => ?_
      refine (framed_nameSuffix he (by omega) hf (watched_of_call hr hname)).mono ?_
      rintro i s' ⟨hf', hle, ha, hreg⟩
      exact ⟨hf', by omega, ha, hreg⟩
    · exact .throw hs

theorem regular_applyUnary {arrays : List String} {op : UnaryOp} {e : Expression}
    (h : Regular arrays e) : Regular arrays (applyUnary op e) := by
  unfold applyUnary
  split
  · rename_i x
    cases h with
    | number hx => exact .number (by rwa [isNaN_neg])
  · rename_i hne
    exact .unary (fun hop x he => hne x hop he) h

theorem framed_unary {n m m' : Nat} (he : ReadsNested c n e e') (hn : s.size ≤ n) (hm : s.size < m)
    (hm' : s.size < m') (hs : c.floor ≤ s.size) :
    Framed c s (unary e m) (unary e' m') (ReadExpression c s) := by
  induction m generalizing m' s with
  | zero => omega
  | succ m ih =>
    obtain ⟨m', rfl⟩ : ∃ k, m' = k + 1 := ⟨m' - 1, by omega⟩
    unfold unary
    refine .peek ?_
    cases hop : unaryOp? s.next.kind with
    | none => exact framed_primary he hn hs
    | some op =>
      have hk : IsInner s.next.kind := by
        constructor <;> intro hk <;> simp [hk, unaryOp?] at hop
      refine .read hk hs fun hf hlt => ?_
      refine (ih (by omega) (by omega) (by omega) hf).bind fun operand s₁ h₁ => ?_
      have hsize := h₁.size
      exact .pure ⟨h₁.floor, by omega, h₁.arrays, fun hp => regular_applyUnary (h₁.regular hp)⟩

/-- The depth of nesting does not show as long as it exceeds the count of tokens ahead. -/
theorem framed_operation {d d' k : Nat} (hd : s.size < d) (hd' : s.size < d')
    (hs : c.floor ≤ s.size) :
    Framed c s (operation d k) (operation d' k) (ReadExpression c s) := by
  induction d generalizing d' k s with
  | zero => omega
  | succ d ih =>
    obtain ⟨d', rfl⟩ : ∃ k, d' = k + 1 := ⟨d' - 1, by omega⟩
    unfold operation
    refine .get fun t ht => ?_
    have hnested : ReadsNested c s.size (operation d 1) (operation d' 1) :=
      fun s' hlt hf => ih (by omega) (by omega) hf
    refine (framed_unary hnested (Nat.le_refl _) (Nat.lt_succ_self _) (Nat.lt_succ_of_le ht)
      hs).bind fun first s₁ h₁ => ?_
    have hsize₁ := h₁.size
    refine Framed.repeated (I := ReadExpression c s) h₁ fun left s' hleft _ => ?_
    have hsize := hleft.size
    refine .peek ?_
    cases hop : binaryOp? s'.next.kind with
    | none => exact .pure hleft
    | some op =>
      have hk : IsInner s'.next.kind := by
        constructor <;> intro hk <;> simp [hk, binaryOp?] at hop
      dsimp only
      split
      · exact .pure hleft
      · refine .read hk hleft.floor fun hf hlt => ?_
        refine (ih (by omega) (by omega) hf).bind fun right s₂ h₂ => .pure ?_
        have hsize₂ := h₂.size
        have harrays : s₂.arrays = s.arrays := h₂.arrays.trans hleft.arrays
        refine ⟨⟨h₂.floor, by omega, harrays, fun hp => ?_⟩, by omega⟩
        exact .binary op (hleft.regular hp) (hleft.arrays ▸ h₂.regular hp)

theorem framed_expression (hs : c.floor ≤ s.size) :
    Framed c s expression expression (ReadExpression c s) := by
  unfold expression
  exact .get fun t ht => framed_operation (Nat.lt_succ_self _) (Nat.lt_succ_of_le ht) hs

end Parser

end StepLang
