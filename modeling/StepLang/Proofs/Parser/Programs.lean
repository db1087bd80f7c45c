import Mathlib.Data.List.Basic
import StepLang.Parser
import StepLang.Proofs.Parser.Statements

/-! # Reading steps and programs

A statement of a program is a step, a procedure, a setting or a single statement. Reading one takes
a token at least, so the loop over a program comes to the end of the input.
-/

namespace StepLang.Parser

variable {α : Type} {c : Frame} {s : State}

/-! ### Procedures -/

theorem framed_datasetOption (hs : c.floor ≤ s.size) : Framed c s datasetOption datasetOption
    fun _ s' => s'.size < s.size := by
  unfold datasetOption
  refine .expectSymbol (by simp) hs fun hf hlt => ?_
  exact (framed_datasetRef hf).mono fun _ s' h => by omega

theorem framed_invalidStatement {Q : α → State → Prop} {name : String} (hs : c.floor ≤ s.size) :
    Framed c s (invalidStatement name) (invalidStatement name) Q :=
  .peek (.throw hs)

theorem framed_procedureOptions {init : α} {option : α → Token → Bool → Parser α}
    (hc : c.strict = false)
    (h : ∀ a t b s', Framed c s' (option a t b) (option a t b) fun _ s'' =>
      t.kind ≠ .endOfInput ∧ s''.size ≤ s'.size) :
    Framed c s (procedureOptions init option) (procedureOptions init option)
      fun _ s' => s'.size < s.size := by
  have h0 := Frame.floor_eq_zero hc
  unfold procedureOptions
  refine (Framed.untilSemicolon (by omega) fun a s' hf hle _ => ?_).bind
    fun request s₁ ⟨_, hf₁, hle₁⟩ => ?_
  · refine .ready fun hr => .advance (.check ?_)
    refine (h a s'.next _ s'.step).mono fun _ s'' ⟨hne, hle'⟩ => ⟨by omega, ?_⟩
    have hlt := size_step hr hne
    omega
  · exact .expectSemicolon hf₁ fun hlt => .pure (by omega)

theorem framed_procedureBody {init : α} {statement : α → Parser α} (hc : c.strict = false)
    (h : ∀ a s', Framed c s' (statement a) (statement a) fun _ s'' => s''.size < s'.size) :
    Framed c s (procedureBody init statement) (procedureBody init statement)
      fun _ s' => s'.size ≤ s.size := by
  have h0 := Frame.floor_eq_zero hc
  unfold procedureBody
  refine (Framed.repeated (I := fun _ s' => s'.size ≤ s.size) (Q := fun _ s' => s'.size ≤ s.size)
    (Nat.le_refl _) ?_).bind fun result s₁ hle₁ => ?_
  · rintro ⟨request, settings⟩ s' hle -
    refine .atEnd (.atStepBoundary ?_)
    split
    · exact .pure hle
    · rename_i hend
      refine .acceptSemicolon (fun hlt => .pure ⟨by omega, hlt⟩) fun _ => ?_
      refine (Framed.recover_lt ?_ (size_pos_of_not_end hend)).bind
        fun r s₁ h₁ => .pure ⟨by omega, h₁⟩
      refine (framed_setting (by omega)).bind fun r s₁ ⟨hnone, hsome⟩ => ?_
      cases r with
      | some setting => exact .pure (hsome rfl)
      | none =>
        obtain rfl := hnone rfl
        exact (h request s₁).bind fun request s₂ h₂ => .pure h₂
  · exact (framed_finishStep (by omega)).bind fun _ s₂ hle₂ => .pure (by omega)

theorem framed_withDataset {t : Token} {k : Keyword} {f : DatasetRef → α} (hc : c.strict = false)
    (ht : t.kind = .keyword k) :
    Framed c s (do return f (← datasetOption)) (do return f (← datasetOption)) fun _ s' =>
      t.kind ≠ .endOfInput ∧ s'.size ≤ s.size := by
  have h0 := Frame.floor_eq_zero hc
  refine (framed_datasetOption (by omega)).bind fun r s₁ hlt => .pure ⟨by simp [ht], by omega⟩

theorem framed_flag {t : Token} {k : Keyword} {a : α} (ht : t.kind = .keyword k) :
    Framed c s (pure a) (pure a) fun _ s' => t.kind ≠ .endOfInput ∧ s'.size ≤ s.size :=
  .pure ⟨by simp [ht], Nat.le_refl _⟩

theorem framed_sortProcedure (hc : c.strict = false) (hb : s.size < c.bound) :
    Framed c s sortProcedure sortProcedure fun _ s' => s'.size ≤ s.size := by
  have h0 := Frame.floor_eq_zero hc
  unfold sortProcedure
  refine .previous hb ?_
  refine (framed_procedureOptions hc fun request t assigned s' => ?_).bind fun request s₁ h₁ => ?_
  · split <;> try rename_i hk
    · exact framed_withDataset hc hk
    · exact framed_withDataset hc hk
    · exact framed_flag hk
    · exact framed_flag hk
    · exact framed_flag hk
    · exact .throw (by omega)
  refine (framed_procedureBody hc fun request s' => .peek ?_).bind ?_
  · split <;> try rename_i hk
    · refine .read (by simp [IsInner, hk]) (by omega) fun hf hlt => ?_
      exact (framed_byList hc).bind fun keys s₂ hlt₂ => .pure (by omega)
    · refine .read (by simp [IsInner, hk]) (by omega) fun hf hlt => ?_
      refine (framed_expression hf).bind fun condition s₂ h₂ => ?_
      have hsize := h₂.size
      refine (Framed.recover_le ?_).bind fun _ s₃ hle₃ => .pure (by omega)
      rw [← bind_pure expectSemicolon]
      exact .expectSemicolon h₂.floor fun hlt₃ => .pure (by omega)
    · exact framed_invalidStatement (by omega)
  · rintro ⟨request, settings⟩ s₂ hle₂
    dsimp only
    split
    · exact .report (.pure (Nat.le_trans hle₂ (Nat.le_of_lt h₁)))
    · exact .pure (by omega)

theorem ne_endOfInput_of_statistic {k : Token.Kind} {x : Statistic} (h : statistic? k = some x) :
    k ≠ .endOfInput := by
  rintro rfl
  cases h

theorem framed_meansOutput (hc : c.strict = false) : Framed c s meansOutput meansOutput
    fun _ s' => s'.size < s.size := by
  have h0 := Frame.floor_eq_zero hc
  unfold meansOutput
  refine (Framed.untilSemicolon (by omega) ?_).bind ?_
  · rintro ⟨out, columns⟩ s' hf hle -
    refine .ready fun hr => .advance (.check ?_)
    split
    · rename_i hout
      have hk := beq_iff_eq.mp (Bool.and_eq_true_iff.mp hout).1
      have hlt := size_step hr (by simp [hk])
      exact (framed_datasetOption (by omega)).bind fun r s₁ hlt₁ => .pure ⟨by omega, by omega⟩
    · cases hstat : statistic? s'.next.kind with
      | none => exact .throw (by omega)
      | some statistic =>
        have hlt := size_step hr (ne_endOfInput_of_statistic hstat)
        refine .expectSymbol (by simp) (by omega) fun hf₁ hlt₁ => ?_
        refine (Framed.repeated (I := fun _ s₂ => s₂.size < s'.size)
          (Q := fun _ s₂ => s₂.size < s'.size) (by omega) fun names s₂ hlt₂ _ => ?_).bind
          fun names s₃ hlt₃ => ?_
        · refine .peek ?_
          cases hname : s₂.next.name? with
          | none => exact .pure hlt₂
          | some name =>
            refine .nextIsAssign (.inr (isInner_of_name hname).1) ?_
            split
            · exact .pure hlt₂
            · exact .read (isInner_of_name hname) (by omega) fun _ hlt₃ => .pure ⟨by omega, hlt₃⟩
        · split
          · exact .peek (.throw (by omega))
          · exact .pure ⟨by omega, hlt₃⟩
  · rintro ⟨out, columns⟩ s₁ ⟨-, hf₁, hle₁⟩
    refine .peek (.expectSemicolon hf₁ fun hlt₂ => ?_)
    cases out with
    | some out => exact .pure (by omega)
    | none => exact .throw (by omega)

theorem framed_meansProcedure (hc : c.strict = false) (hb : s.size < c.bound) :
    Framed c s meansProcedure meansProcedure fun _ s' => s'.size ≤ s.size := by
  have h0 := Frame.floor_eq_zero hc
  unfold meansProcedure
  refine .previous hb ?_
  refine (framed_procedureOptions hc fun request t assigned s' => ?_).bind fun request s₁ h₁ => ?_
  · split
    · rename_i hdata
      exact framed_withDataset hc (beq_iff_eq.mp (Bool.and_eq_true_iff.mp hdata).1)
    · cases hstat : statistic? t.kind with
      | none => exact .throw (by omega)
      | some statistic =>
        have hkeep {r : MeansRequest} : Framed c s' (pure r) (pure r) fun _ s'' =>
            t.kind ≠ .endOfInput ∧ s''.size ≤ s'.size :=
          .pure ⟨ne_endOfInput_of_statistic hstat, Nat.le_refl _⟩
        dsimp only
        split
        · exact hkeep
        · exact hkeep
  refine (framed_procedureBody hc fun request s' => .peek ?_).bind ?_
  · split <;> try rename_i hk
    · refine .read (by simp [IsInner, hk]) (by omega) fun hf hlt => ?_
      exact (framed_nameList hf).bind fun keys s₂ hlt₂ => .pure (by omega)
    · refine .read (by simp [IsInner, hk]) (by omega) fun hf hlt => ?_
      exact (framed_meansOutput hc).bind fun output s₂ hlt₂ => .pure (by omega)
    · exact framed_invalidStatement (by omega)
  · rintro ⟨request, settings⟩ s₂ hle₂
    dsimp only
    split
    · exact .report (.pure (Nat.le_trans hle₂ (Nat.le_of_lt h₁)))
    · exact .pure (by omega)

theorem framed_obsOption (hc : c.strict = false) : Framed c s obsOption obsOption
    fun _ s' => s'.size ≤ s.size := by
  have h0 := Frame.floor_eq_zero hc
  unfold obsOption
  refine .advance (.advance ?_)
  have hle := size_step_le s
  have hle' := size_step_le s.step
  split
  · split
    · exact .pure (by omega)
    · exact .throw (by omega)
  · exact .throw (by omega)

theorem framed_printProcedure (hc : c.strict = false) :
    Framed c s printProcedure printProcedure fun _ s' => s'.size ≤ s.size := by
  have h0 := Frame.floor_eq_zero hc
  unfold printProcedure
  refine (framed_procedureOptions hc fun request t assigned s' => ?_).bind fun request s₁ h₁ => ?_
  · split <;> try rename_i hk
    · exact framed_withDataset hc hk
    · exact (framed_obsOption hc).bind fun obs s₂ hle₂ => .pure ⟨by simp [hk], by omega⟩
    · exact framed_flag hk
    · exact .throw (by omega)
  refine (framed_procedureBody hc fun request s' => .peek ?_).bind ?_
  · split <;> try rename_i hk
    · refine .read (by simp [IsInner, hk]) (by omega) fun hf hlt => ?_
      exact (framed_nameList hf).bind fun keys s₂ hlt₂ => .pure (by omega)
    · exact framed_invalidStatement (by omega)
  · rintro ⟨request, settings⟩ s₂ hle₂
    exact .pure (by omega)

theorem framed_freqProcedure (hc : c.strict = false) :
    Framed c s freqProcedure freqProcedure fun _ s' => s'.size ≤ s.size := by
  have h0 := Frame.floor_eq_zero hc
  unfold freqProcedure
  refine (framed_procedureOptions hc fun request t assigned s' => ?_).bind fun request s₁ h₁ => ?_
  · split <;> try rename_i hk
    · exact framed_withDataset hc hk
    · exact .throw (by omega)
  refine (framed_procedureBody hc fun request s' => .peek ?_).bind ?_
  · split <;> try rename_i hk
    · refine .read (by simp [IsInner, hk]) (by omega) fun hf hlt => ?_
      exact (framed_nameList hf).bind fun keys s₂ hlt₂ => .pure (by omega)
    · exact framed_invalidStatement (by omega)
  · rintro ⟨request, settings⟩ s₂ hle₂
    exact .pure (by omega)

theorem framed_skipSql : Framed c s skipSql skipSql fun _ s' => s'.size ≤ s.size := by
  unfold skipSql
  refine .repeated (I := fun _ s' => s'.size ≤ s.size) (Nat.le_refl _) fun _ s' hle _ => .atEnd ?_
  split
  · exact .pure hle
  · rename_i hend
    have hlt := size_step_of_pos (s := s') (by simpa [State.size, List.length_pos_iff] using hend)
    have hle' := size_step_le s'.step
    refine .advance (.check ?_)
    split
    · exact .advance (.pure (show _ ≤ _ by omega))
    · exact .pure ⟨by omega, hlt⟩

theorem framed_skipStep : Framed c s skipStep skipStep fun _ s' => s'.size ≤ s.size := by
  unfold skipStep
  refine .repeated (I := fun _ s' => s'.size ≤ s.size) (Nat.le_refl _) fun _ s' hle _ => ?_
  refine .atEnd (.atStepBoundary ?_)
  split
  · exact .pure hle
  · rename_i hend
    have hlt := size_step_of_pos (size_pos_of_not_end hend)
    exact .advance (.pure ⟨by omega, hlt⟩)

theorem framed_procedure (hc : c.strict = false) (hk : IsInner s.next.kind) :
    Framed c s procedure procedure fun _ s' => s'.size < s.size := by
  have h0 := Frame.floor_eq_zero hc
  refine Framed.ready fun hr => ?_
  have hbound := hr.size
  unfold procedure
  refine .read hk (by omega) fun hf hlt => .advance ?_
  have hle := size_step_le s.step
  split
  · exact (framed_sortProcedure hc (by omega)).mono fun _ s' h => by omega
  · exact (framed_meansProcedure hc (by omega)).mono fun _ s' h => by omega
  · exact (framed_printProcedure hc).mono fun _ s' h => by omega
  · exact (framed_freqProcedure hc).mono fun _ s' h => by omega
  · exact framed_skipSql.bind fun _ s₁ hle₁ => .pure (by omega)
  · split
    · exact .throw (by omega)
    · refine framed_skipStep.bind fun _ s₁ hle₁ => ?_
      exact (framed_finishStep (by omega)).bind fun _ s₂ hle₂ => .pure (by omega)

/-! ### Steps -/

theorem framed_stepBody (hc : c.strict = false) :
    Framed c s stepBody stepBody fun _ s' => s'.size ≤ s.size := by
  have h0 := Frame.floor_eq_zero hc
  unfold stepBody
  refine .repeated (I := fun _ s' => s'.size ≤ s.size) (Nat.le_refl _) ?_
  rintro ⟨settings, body⟩ s' hle -
  refine .atEnd (.atStepBoundary ?_)
  split
  · exact .pure hle
  · rename_i hend
    have hpos := size_pos_of_not_end hend
    refine (Framed.recover (framed_setting (by omega))).bind fun r s₁ h₁ => ?_
    match r with
    | none => exact .pure ⟨Nat.le_trans h₁.1 hle, h₁.2 hpos⟩
    | some (some setting) => exact .pure ⟨Nat.le_trans (Nat.le_of_lt (h₁.2 rfl)) hle, h₁.2 rfl⟩
    | some none =>
      obtain rfl := h₁.1 rfl
      refine .acceptSemicolon (fun hlt => .pure ⟨by omega, hlt⟩) fun _ => ?_
      refine (Framed.recover_lt (framed_stepStatement (by omega)) hpos).bind fun r s₂ h₂ => ?_
      cases r with
      | none => exact .pure ⟨by omega, h₂⟩
      | some statement => exact .pure ⟨by omega, h₂⟩

/-- Reads the head of a DATA step: its outputs, through the semicolon. -/
def stepHead : Parser (List DatasetRef) := do
  let _ ← advance
  let outputs ← untilSemicolon [] fun refs => return refs ++ [← datasetRef]
  expectSemicolon
  return outputs

/-- The outputs of a DATA step, and the settings and the statements in it. -/
structure StepParts where
  outputs : List DatasetRef
  settings : List Statement
  body : List StepStatement

/-- What a DATA step gives; a step without outputs has a default one. -/
def StepParts.statements (parts : StepParts) : List Statement :=
  let outputs := if parts.outputs.isEmpty then [.work "DATA1"] else parts.outputs
  parts.settings ++ [.dataStep outputs parts.body]

def openStep : Parser StepParts := do
  let outputs ← stepHead
  modify fun s => { s with arrays := [] }
  let (settings, body) ← stepBody
  return ⟨outputs, settings, body⟩

theorem dataStep_eq : dataStep = do
    let parts ← openStep
    finishStep
    return parts.statements := by
  simp only [dataStep, openStep, stepHead, bind_assoc, pure_bind, StepParts.statements]

theorem framed_stepHead (hs : c.floor ≤ s.size) (hk : IsInner s.next.kind) :
    Framed c s stepHead stepHead fun _ s' => s'.size < s.size := by
  unfold stepHead
  refine .read hk hs fun hf hlt => ?_
  refine (Framed.untilSemicolon hf fun refs s' hf hle _ => ?_).bind
    fun outputs s₁ ⟨_, hf₁, hle₁⟩ => ?_
  · exact (framed_datasetRef hf).bind fun _ _ h => .pure h
  · exact .expectSemicolon hf₁ fun hlt₂ => .pure (by omega)

theorem framed_openStep (ht : c.tidy = false) (hc : c.strict = false) (hk : IsInner s.next.kind) :
    Framed c s openStep openStep fun _ s' => s'.size < s.size := by
  have h0 := Frame.floor_eq_zero hc
  unfold openStep
  refine (framed_stepHead (by omega) hk).bind fun outputs s₁ hlt₁ => ?_
  refine .modify rfl rfl (by simp [ht]) (fun t ht => ?_) ?_
  · exact ⟨ht.ahead, ht.eof, ht.errors, ht.last, fun _ _ => rfl⟩
  · refine (framed_stepBody hc).bind ?_
    rintro ⟨settings, body⟩ s₂ hle₂
    exact .pure (Nat.lt_of_le_of_lt hle₂ hlt₁)

theorem framed_dataStep (ht : c.tidy = false) (hc : c.strict = false) (hk : IsInner s.next.kind) :
    Framed c s dataStep dataStep fun _ s' => s'.size < s.size := by
  have h0 := Frame.floor_eq_zero hc
  rw [dataStep_eq]
  refine (framed_openStep ht hc hk).bind fun parts s₁ hlt₁ => ?_
  exact (framed_finishStep (by omega)).bind fun _ s₂ hle₂ => .pure (by omega)

/-! ### Programs -/

theorem framed_programStatement (hs : c.floor ≤ s.size) (hpos : 0 < s.size)
    (hx : c.extra = none ∨ s.next.kind ≠ .symbol .semicolon) :
    Framed c s programStatement programStatement fun statements s' => s'.size < s.size ∧
      (c.tidy = true → s.next.kind ≠ .symbol .semicolon → statements ≠ []) := by
  unfold programStatement
  refine .ready fun hr => .nextIsAssign hx (.peek ?_)
  have hstep {p : Parser (List Statement)} (hk : isCompound s.next.kind = true)
      (h : c.tidy = false → c.strict = false → Framed c s p p fun _ s' => s'.size < s.size) :
      Framed c s p p fun statements s' => s'.size < s.size ∧
        (c.tidy = true → s.next.kind ≠ .symbol .semicolon → statements ≠ []) := by
    obtain ⟨ht, hc⟩ := tidy_of_compound hr hk
    exact (h ht hc).mono fun _ s' h => ⟨h, by simp [ht]⟩
  split
  · rename_i hk
    exact .advance (.pure ⟨size_step_of_pos hpos, fun _ hne => absurd hk hne⟩)
  · rename_i hk _
    exact hstep (by rw [hk]; rfl) fun ht hc => framed_dataStep ht hc (by simp [IsInner, hk])
  · rename_i hk _
    exact hstep (by rw [hk]; rfl) fun _ hc => framed_procedure hc (by simp [IsInner, hk])
  · rename_i hk _
    exact .read (by simp [IsInner, hk]) hs fun hf hlt =>
      .expectSemicolon hf fun hlt₁ => .pure ⟨by omega, fun _ _ => by simp⟩
  · rename_i hk _
    exact .read (by simp [IsInner, hk]) hs fun hf hlt =>
      .expectSemicolon hf fun hlt₁ => .pure ⟨by omega, fun _ _ => by simp⟩
  · refine (framed_setting hs).bind ?_
    rintro r s₁ ⟨hnone, hsome⟩
    cases r with
    | some setting => exact .pure ⟨hsome rfl, fun _ _ => by simp⟩
    | none =>
      obtain rfl := hnone rfl
      exact (framed_stepStatement hs).bind fun statement s₂ h₂ => .pure ⟨h₂, fun _ _ => by simp⟩

def programPass (statements : List Statement) :
    Parser (Pass (List Statement) (List Statement)) := do
  if ← atEnd then return .done statements
  else return .again (statements ++ (← recover programStatement).getD [])

theorem framed_programPass {statements : List Statement} (hc : c.strict = false)
    (hx : c.extra = none) : Framed c s (programPass statements) (programPass statements)
      (Pass.Holds (fun _ s' => True ∧ s'.size < s.size) fun _ _ => True) := by
  have h0 := Frame.floor_eq_zero hc
  unfold programPass
  refine .atEnd ?_
  split
  · exact .pure trivial
  · rename_i hend
    have hpos : 0 < s.size := by simpa [State.size, List.length_pos_iff] using hend
    have hread : Framed c s programStatement programStatement fun _ s' => s'.size < s.size :=
      (framed_programStatement (by omega) hpos (.inl hx)).mono fun _ _ h => h.1
    exact (Framed.recover_lt hread hpos).bind fun r s₁ h₁ => .pure ⟨trivial, h₁⟩

theorem out_programPass_nil {statements : List Statement} (h : s.ahead = []) :
    out (programPass statements) s = (.ok (.done statements), s) := by
  unfold programPass
  rw [out_bind_of_ok (out_atEnd s), h]
  rfl

theorem out_programPass_cons {statements : List Statement} {r : Option (List Statement)}
    {s₁ : State} (hne : s.ahead ≠ []) (h : out (recover programStatement) s = (.ok r, s₁)) :
    out (programPass statements) s = (.ok (.again (statements ++ r.getD [])), s₁) := by
  unfold programPass
  rw [out_bind_of_ok (out_atEnd s), if_neg (by simpa using hne), out_bind_of_ok h]
  rfl

theorem out_recover_ok (p : Parser α) (s : State) : ∃ r s₁, out (recover p) s = (.ok r, s₁) := by
  cases hp : out p s with
  | mk r s' =>
    cases r with
    | ok a => exact ⟨_, _, out_recover_of_ok hp⟩
    | error e => exact ⟨_, _, out_recover_of_error hp⟩

theorem out_repeatUpTo_append (before statements : List Statement) (n : Nat) (s : State) :
    out (repeatUpTo programPass n (before ++ statements)) s =
      ((out (repeatUpTo programPass n statements) s).1.map (before ++ ·),
        (out (repeatUpTo programPass n statements) s).2) := by
  induction n generalizing statements s with
  | zero => rfl
  | succ n ih =>
    unfold repeatUpTo
    by_cases hs : s.ahead = []
    · rw [out_bind_of_ok (out_programPass_nil hs), out_bind_of_ok (out_programPass_nil hs)]
      rfl
    · obtain ⟨r, s₁, hr⟩ := out_recover_ok programStatement s
      rw [out_bind_of_ok (out_programPass_cons hs hr), out_bind_of_ok (out_programPass_cons hs hr)]
      dsimp only
      rw [List.append_assoc, ih]

/-- The frame of a program with nothing behind it. -/
def Frame.whole (errors : List Error) (s : State) : Frame where
  extra := none
  errors := errors
  watched name := name ∈ callNames s.ahead
  bound := s.size
  tidy := false
  strict := false
  present := false

theorem Frame.ready_whole {errors : List Error} (he : s.eof.kind = .endOfInput) :
    (Frame.whole errors s).Ready s :=
  ⟨he, Nat.le_refl _, fun _ hn => hn, (fun hc => nomatch hc), (fun hc => nomatch hc),
    fun hc => nomatch hc⟩

/-- Two states from which the same program is read, but for the errors before it. -/
structure Alike (errors : List Error) (s t : State) : Prop where
  ahead : t.ahead = s.ahead
  kind : s.eof.kind = .endOfInput
  eof : s.ahead ≠ [] → t.eof = s.eof
  errors : t.errors = errors ++ s.errors
  arrays : ∀ name ∈ callNames s.ahead, t.arrays.contains name = s.arrays.contains name

/-- How many passes are allowed does not show, nor what stands before a program. -/
theorem Alike.out_repeatUpTo {errors : List Error} {t : State} (h : Alike errors s t) {n m : Nat}
    (hn : s.size < n) (hm : s.size < m) (statements : List Statement) :
    (out (repeatUpTo programPass m statements) t).1 =
        (out (repeatUpTo programPass n statements) s).1 ∧
      (out (repeatUpTo programPass m statements) t).2.errors =
        errors ++ (out (repeatUpTo programPass n statements) s).2.errors := by
  by_cases hs : s.ahead = []
  · obtain ⟨n, rfl⟩ : ∃ k, n = k + 1 := ⟨n - 1, by omega⟩
    obtain ⟨m, rfl⟩ : ∃ k, m = k + 1 := ⟨m - 1, by omega⟩
    unfold repeatUpTo
    rw [out_bind_of_ok (out_programPass_nil hs),
      out_bind_of_ok (out_programPass_nil (h.ahead ▸ hs))]
    exact ⟨rfl, h.errors⟩
  · have hext : (Frame.whole errors s).Extends s t := by
      refine ⟨?_, fun _ => h.eof hs, h.errors, fun hlt => ?_, h.arrays⟩
      · rw [h.ahead]
        exact (List.append_nil _).symm
      · exact absurd hlt (Nat.lt_irrefl _)
    have hloop : Framed (Frame.whole errors s) s (repeatUpTo programPass n statements)
        (repeatUpTo programPass m statements) fun _ _ => True :=
      .repeatUpTo (I := fun _ _ => True) hn hm trivial fun _ _ _ _ => framed_programPass rfl rfl
    obtain ⟨t', ht, hext'⟩ := (hloop (Frame.ready_whole h.kind)).longer t hext (.inl rfl)
    rw [ht]
    exact ⟨rfl, hext'.errors⟩

theorem Alike.out_program {errors : List Error} {t : State} (h : Alike errors s t) :
    (out program t).1 = (out program s).1 ∧
      (out program t).2.errors = errors ++ (out program s).2.errors := by
  have hsize : t.size = s.size := congrArg List.length h.ahead
  exact h.out_repeatUpTo (Nat.lt_succ_self _) (by rw [← hsize]; exact Nat.lt_succ_self _) []

theorem out_program_nil (h : s.ahead = []) : out program s = (.ok [], s) := by
  change out (repeatUpTo programPass (s.ahead.length + 1) []) s = _
  unfold repeatUpTo
  rw [out_bind_of_ok (out_programPass_nil h)]
  rfl

theorem size_recover_lt {r : Option (List Statement)} {s₁ : State} (he : s.eof.kind = .endOfInput)
    (hne : s.ahead ≠ []) (h : out (recover programStatement) s = (.ok r, s₁)) :
    s₁.size < s.size ∧ s₁.eof = s.eof := by
  have hpos : 0 < s.size := List.length_pos_iff.mpr hne
  have hread : Framed (Frame.whole [] s) s programStatement programStatement
      fun _ s' => s'.size < s.size :=
    (framed_programStatement (Nat.zero_le _) hpos (.inl rfl)).mono fun _ _ h => h.1
  have hran := Framed.recover_lt hread hpos (Frame.ready_whole he)
  rw [h] at hran
  exact ⟨hran.ok r rfl, hran.eof⟩

theorem out_program_cons {r : Option (List Statement)} {s₁ : State}
    (he : s.eof.kind = .endOfInput) (hne : s.ahead ≠ [])
    (h : out (recover programStatement) s = (.ok r, s₁)) :
    (out program s).1 = (out program s₁).1.map (r.getD [] ++ ·) ∧
      (out program s).2.errors = (out program s₁).2.errors := by
  obtain ⟨hlt, heof⟩ := size_recover_lt he hne h
  have hsame : Alike [] s₁ s₁ := ⟨rfl, heof ▸ he, fun _ => rfl, rfl, fun _ _ => rfl⟩
  obtain ⟨hresult, herrors⟩ := hsame.out_repeatUpTo (Nat.lt_succ_self _) hlt []
  have hfirst : out program s = out (repeatUpTo programPass s.size (r.getD [] ++ [])) s₁ := by
    change out (repeatUpTo programPass (s.size + 1) []) s = _
    rw [repeatUpTo, out_bind_of_ok (out_programPass_cons hne h), List.append_nil]
    rfl
  rw [hfirst, out_repeatUpTo_append, hresult, herrors]
  exact ⟨rfl, rfl⟩

/-- Reading a program does not fail. -/
theorem exists_out_program (he : s.eof.kind = .endOfInput) :
    ∃ statements, (out program s).1 = .ok statements := by
  induction hn : s.size using Nat.strongRecOn generalizing s with
  | ind n ih =>
    by_cases hne : s.ahead = []
    · rw [out_program_nil hne]
      exact ⟨[], rfl⟩
    · obtain ⟨r, s₁, hr⟩ := out_recover_ok programStatement s
      obtain ⟨hlt, heof⟩ := size_recover_lt he hne hr
      obtain ⟨statements, hs⟩ := ih s₁.size (hn ▸ hlt) (heof ▸ he) rfl
      rw [(out_program_cons he hne hr).1, hs]
      exact ⟨_, rfl⟩

end StepLang.Parser

namespace StepLang

open StepLang.Parser

/-! ### Parsed programs -/

/-- The state before the first of the given tokens, where arrays have been declared before. -/
def Parser.State.startWith (arrays : List String) (tokens : List Token) : State :=
  { State.start tokens with arrays }

/-- Parses tokens where arrays have been declared before. -/
def Program.ofTokensWith (arrays : List String) (tokens : List Token) : Program :=
  let (result, s) := out program (State.startWith arrays tokens)
  ⟨result.toOption.getD [], s.errors⟩

theorem Program.ofTokens_eq (tokens : List Token) :
    Program.ofTokens tokens = Program.ofTokensWith [] tokens := rfl

theorem Parser.State.eof_start (tokens : List Token) :
    (State.start tokens).eof.kind = .endOfInput := by
  unfold State.start
  dsimp only
  split
  · rename_i t ht
    have := List.find?_some ht
    simpa using this
  · rfl
  · rfl

theorem Parser.State.ahead_start_append {ts : List Token} (h : ∀ t ∈ ts, t.kind ≠ .endOfInput)
    (us : List Token) : (State.start (ts ++ us)).ahead = ts ++ (State.start us).ahead := by
  have hpos : ∀ t ∈ ts, (! t.kind == .endOfInput) = true := by simpa using h
  exact List.takeWhile_append_of_pos hpos

theorem Parser.State.eof_start_append {ts us : List Token} (h : ∀ t ∈ ts, t.kind ≠ .endOfInput)
    (hus : us ≠ []) : (State.start (ts ++ us)).eof = (State.start us).eof := by
  have hfind : (ts ++ us).find? (·.kind == .endOfInput) = us.find? (·.kind == .endOfInput) := by
    have hnone : ts.find? (·.kind == .endOfInput) = none := by simpa using h
    rw [List.find?_append, hnone, Option.none_or]
  have hlast : (ts ++ us).getLast? = us.getLast? := List.getLast?_append_of_ne_nil ts hus
  unfold State.start
  dsimp only
  rw [hfind, hlast]

theorem Program.ofTokensWith_out (arrays : List String) (tokens : List Token) :
    (out program (State.startWith arrays tokens)).1 =
        .ok (Program.ofTokensWith arrays tokens).statements ∧
      (out program (State.startWith arrays tokens)).2.errors =
        (Program.ofTokensWith arrays tokens).errors := by
  obtain ⟨statements, h⟩ :=
    exists_out_program (s := State.startWith arrays tokens) (State.eof_start tokens)
  refine ⟨?_, rfl⟩
  change _ = Except.ok ((out program (State.startWith arrays tokens)).1.toOption.getD [])
  rw [h]
  rfl

/-- A program gives its first statement and what the loop over the others leaves. -/
theorem Program.ofTokens_first {tokens : List Token} {r : Option (List Statement)} {s : State}
    (hne : (State.start tokens).ahead ≠ [])
    (hr : out (recover programStatement) (State.start tokens) = (.ok r, s)) :
    ∃ statements, (out program s).1 = .ok statements ∧
      Program.ofTokens tokens = ⟨r.getD [] ++ statements, (out program s).2.errors⟩ := by
  have hkind := State.eof_start tokens
  obtain ⟨-, heof⟩ := size_recover_lt hkind hne hr
  obtain ⟨statements, hs⟩ := exists_out_program (heof ▸ hkind)
  obtain ⟨hfirst, herrors⟩ := out_program_cons hkind hne hr
  refine ⟨statements, hs, ?_⟩
  change Program.mk ((out program (State.start tokens)).1.toOption.getD [])
    (out program (State.start tokens)).2.errors = _
  rw [hfirst, hs, herrors]
  rfl

theorem Parser.State.start_append_ne_nil {ts : List Token} (h : ∀ t ∈ ts, t.kind ≠ .endOfInput)
    (hne : ts ≠ []) (us : List Token) : (State.start (ts ++ us)).ahead ≠ [] := by
  rw [State.ahead_start_append h]
  exact List.append_ne_nil_of_left_ne_nil hne _

/-- A program whose first statement ends where another program starts. -/
theorem Program.ofTokens_append {tokens rest : List Token} (arrays : List String)
    {r : Option (List Statement)} {s : State} (hend : ∀ t ∈ tokens, t.kind ≠ .endOfInput)
    (hne : tokens ≠ [])
    (hr : out (recover programStatement) (State.start (tokens ++ rest)) = (.ok r, s))
    (hs : s.ahead = (State.start rest).ahead)
    (harrays : ∀ name, s.arrays.contains name = arrays.contains name) :
    Program.ofTokens (tokens ++ rest) =
      ⟨r.getD [] ++ (Program.ofTokensWith arrays rest).statements,
        s.errors ++ (Program.ofTokensWith arrays rest).errors⟩ := by
  have hstart := State.start_append_ne_nil hend hne rest
  have halike : Alike s.errors (State.startWith arrays rest) s := by
    refine ⟨hs, State.eof_start rest, fun hnil => ?_, (List.append_nil _).symm,
      fun name _ => harrays name⟩
    have hrest : rest ≠ [] := by
      rintro rfl
      exact hnil rfl
    exact (size_recover_lt (State.eof_start _) hstart hr).2.trans
      (State.eof_start_append hend hrest)
  obtain ⟨statements, hstatements, hfirst⟩ := Program.ofTokens_first hstart hr
  obtain ⟨hbehind, hbehindErrors⟩ := halike.out_program
  obtain ⟨hrest, hrestErrors⟩ := Program.ofTokensWith_out arrays rest
  rw [hbehind, hrest] at hstatements
  cases hstatements
  rw [hfirst, hbehindErrors, hrestErrors]

end StepLang
