import Mathlib.Data.List.Forall2
import Mathlib.Data.List.TakeWhile
import StepLang.Proofs.Parser.PartedProcedures

/-! # Programs with parted words

If a program is read without an error, it is also read without one where words `ELSE IF` are parted,
and its steps are the same but for the further branches, which are nested statements there.
-/

namespace StepLang

open DataStep (Nests)
open DataStep.Fragment (one all)

/-- The second statement is the first one with some of the conditional further branches in it
written as nested statements. -/
inductive Statement.Nests : Statement → Statement → Prop
  | refl (s : Statement) : Nests s s
  | dataStep (outputs : List DatasetRef) {body body' : List StepStatement}
    (h : DataStep.Nests (all body) (all body')) :
    Nests (.dataStep outputs body) (.dataStep outputs body')
  | single {s s' : StepStatement} (h : DataStep.Nests (one s) (one s')) :
    Nests (.single s) (.single s')

instance : Std.Refl Statement.Nests := ⟨.refl⟩

namespace Parser

variable {α β : Type} {s t : State}

/-! ### Steps -/

theorem shadows_stepBody : Shadows false s t stepBody stepBody fun a b _ _ =>
    b.1 = a.1 ∧ Nests (all a.2) (all b.2) := by
  rw [stepBody_eq]
  refine .repeated (I := fun a b _ _ => b.1 = a.1 ∧ Nests (all a.2) (all b.2))
    (.inr composes_grows.stepPass) ⟨rfl, .nil⟩ ?_
  rintro ⟨settings, body⟩ ⟨_, body'⟩ s' t' hle ⟨rfl, hbody⟩
  unfold stepPass
  refine .atEnd (.atStepBoundary ?_)
  split
  · exact .pure ⟨rfl, hbody⟩
  refine (Shadows.recover composes_grows.setting shadows_setting.loud).bindLoud
    composes_grows.setting.recover (composes_grows.behindSetting _) ?_
  · rintro _ _ s₁ t₁ hle₁ ⟨_, r, rfl, rfl, rfl, hlt₁⟩
    cases r with
    | some setting => exact .pure ⟨⟨rfl, hbody⟩, hlt₁ rfl⟩
    | none =>
      refine .acceptSymbol (fun _ hlt₂ => .pure ⟨⟨rfl, hbody⟩, by omega⟩) ?_
      refine (Shadows.recover composes_grows.stepStatement shadows_stepStatement).bindLoud
        composes_grows.stepStatement.recover (fun r => by cases r <;> exact .pure) ?_
      rintro _ _ s₂ t₂ hle₂ ⟨statement, statement', rfl, rfl, hnests, hlt₂⟩
      exact .pure ⟨⟨rfl, hbody.append (.cons hnests .nil)⟩, by omega⟩

/-- The statements of a program that a parser reads from both states. -/
abbrev NestBehind (t : State) (a b : List Statement) (_ t' : State) : Prop :=
  List.Forall₂ Statement.Nests a b ∧ t'.size < t.size

theorem shadows_dataStep (hk : s.next.kind = .keyword .DATA) :
    Shadows false s t dataStep dataStep (NestBehind t) := by
  unfold dataStep
  refine .read (by simp [hk]) fun _ hlt => ?_
  refine (Shadows.list fun refs s' t' _ => shadows_datasetItem refs).bind ?_
  rintro _ outputs s₁ t₁ hle₁ rfl
  refine .expectSemicolon fun hlt₂ => .modifyArrays (fun _ => []) ?_
  refine shadows_stepBody.bindLoud composes_grows.stepBody
    (fun _ => composes_grows.finishStep.bind fun _ => .pure) ?_
  rintro ⟨settings, body⟩ ⟨_, body'⟩ s₃ t₃ hle₃ ⟨rfl, hbody⟩
  have hle₃ : t₃.size ≤ t₁.step.size := hle₃
  refine shadows_finishStep.bind fun _ _ s₄ t₄ hle₄ _ => .pure ⟨?_, by omega⟩
  exact List.rel_append (List.forall₂_refl _) (.cons (.dataStep _ hbody) .nil)

/-! ### Programs -/

theorem out_programStatement_keyword {c : Keyword} (hk : s.next.kind = .keyword c)
    (hc : c = .ELSEIF ∨ c = .ELSE) : out programStatement s =
      out (do return [.single (← stepStatement)]) s := by
  unfold programStatement
  rw [out_bind_of_ok (out_nextIsAssign s), out_bind_of_ok (out_peek s), hk]
  rcases hc with rfl | rfl
  · cases s.second.kind == .symbol .assign <;>
      exact out_bind_of_ok (out_setting_keyword hk (by simp))
  · cases s.second.kind == .symbol .assign <;>
      exact out_bind_of_ok (out_setting_keyword hk (by simp))

theorem shadows_single : Shadows false s t (do return [Statement.single (← stepStatement)])
    (do return [Statement.single (← stepStatement)]) (NestBehind t) :=
  shadows_stepStatement.bindLoud composes_grows.stepStatement (fun _ => .pure)
    fun _ _ _ _ _ h => .pure ⟨.cons (.single h.1) .nil, h.2⟩

theorem shadows_programStatement :
    Shadows false s t programStatement programStatement (NestBehind t) := by
  refine .twin fun ht => ?_
  rcases ht.level_or_split with hl | hs
  · unfold programStatement
    refine .nextIsAssign hl (.peek ?_)
    rw [hl.next.kind]
    split
    · rename_i hk
      exact .read (by simp [hk]) fun _ hlt => .pure ⟨.nil, hlt⟩
    · rename_i hk _
      exact shadows_dataStep hk
    · rename_i hk _
      exact (shadows_procedure hk).mono fun _ _ _ _ _ h => ⟨h.1 ▸ List.forall₂_refl _, h.2⟩
    · rename_i hk _
      refine .read (by simp [hk]) fun _ hlt => .expectSemicolon fun hlt₁ => ?_
      exact .pure ⟨List.forall₂_refl _, by omega⟩
    · rename_i hk _
      refine .read (by simp [hk]) fun _ hlt => .expectSemicolon fun hlt₁ => ?_
      exact .pure ⟨List.forall₂_refl _, by omega⟩
    · refine shadows_setting.bind ?_
      rintro _ r s₁ t₁ hle ⟨rfl, hlt⟩
      cases r with
      | some setting => exact .pure ⟨List.forall₂_refl _, hlt rfl⟩
      | none => exact shadows_single.mono fun _ _ _ _ _ h => ⟨h.1, by omega⟩
  · exact .of_out (out_programStatement_keyword hs.joint (.inl rfl))
      (out_programStatement_keyword hs.first (.inr rfl)) rfl rfl (Nat.le_refl _) id shadows_single

theorem shadows_program : Shadows false s t program program fun a b _ _ =>
    List.Forall₂ Statement.Nests a b := by
  rw [program_eq]
  refine .repeated (I := fun a b _ _ => List.Forall₂ Statement.Nests a b)
    (.inr composes_grows.programPass) .nil ?_
  intro statements statements' s' t' hle hstatements
  unfold programPass
  refine .atEnd ?_
  split
  · exact .pure hstatements
  · refine (Shadows.recover composes_grows.programStatement shadows_programStatement).bindLoud
      composes_grows.programStatement.recover (fun _ => .pure) ?_
    rintro _ _ s₁ t₁ hle₁ ⟨new, new', rfl, rfl, hnew, hlt⟩
    exact .pure ⟨List.rel_append hstatements hnew, hlt⟩

/-! ### The tokens of a program -/

theorem line_takeWhile (p : Token → Bool) (ts : List Token) :
    line (ts.takeWhile p) = (line ts).takeWhile p := by
  unfold line
  rw [List.takeWhile_takeWhile, List.takeWhile_takeWhile]
  simp only [and_comm]

theorem forall₂_takeWhile {ts us : List Token} {p : Token → Bool}
    (hp : ∀ t u : Token, t.Alike u → p u = p t) (h : List.Forall₂ Token.Alike ts us) :
    List.Forall₂ Token.Alike (ts.takeWhile p) (us.takeWhile p) := by
  induction h with
  | nil => exact .nil
  | cons htu _ ih =>
    rw [List.takeWhile_cons, List.takeWhile_cons, hp _ _ htu]
    split
    · exact .cons htu ih
    · exact .nil

variable {ts us : List Token}

theorem Parted.takeWhile (h : Parted ts us) :
    Parted (ts.takeWhile (! ·.kind == .endOfInput)) (us.takeWhile (! ·.kind == .endOfInput)) := by
  have hend (t u : Token) (htu : t.Alike u) :
      (! u.kind == .endOfInput) = (! t.kind == .endOfInput) := by rw [htu.kind]
  induction h with
  | nil => exact .nil
  | @cons t u ts us htu hl _ ih =>
    rw [List.takeWhile_cons, List.takeWhile_cons, hend t u htu]
    split
    · refine .cons htu (fun hk => ?_) ih
      rw [line_takeWhile, line_takeWhile]
      exact forall₂_takeWhile hend (hl hk)
    · exact .nil
  | split ht hu hv _ ih =>
    rw [List.takeWhile_cons_of_pos (by simp [ht]), List.takeWhile_cons_of_pos (by simp [hu]),
      List.takeWhile_cons_of_pos (by simp [hv])]
    exact .split ht hu hv ih

theorem Parted.find_end (h : Parted ts us) :
    (ts.find? (·.kind == .endOfInput) = none ∧ us.find? (·.kind == .endOfInput) = none) ∨
      ∃ t u, ts.find? (·.kind == .endOfInput) = some t ∧
        us.find? (·.kind == .endOfInput) = some u ∧ t.Alike u := by
  induction h with
  | nil => exact .inl ⟨rfl, rfl⟩
  | @cons t u ts us htu _ _ ih =>
    rw [List.find?_cons, List.find?_cons, htu.kind]
    cases t.kind == .endOfInput with
    | true => exact .inr ⟨t, u, rfl, rfl, htu⟩
    | false => exact ih
  | split ht hu hv _ ih =>
    rwa [List.find?_cons_of_neg (by simp [ht]), List.find?_cons_of_neg (by simp [hu]),
      List.find?_cons_of_neg (by simp [hv])]

theorem State.eof_start_of_none (h : ts.find? (·.kind == .endOfInput) = none) :
    ∃ pos, (State.start ts).eof = ⟨.endOfInput, "", pos⟩ := by
  unfold State.start
  dsimp only
  rw [h]
  cases ts.getLast? with
  | none => exact ⟨_, rfl⟩
  | some t => exact ⟨_, rfl⟩

theorem State.eof_start_of_some {t : Token} (h : ts.find? (·.kind == .endOfInput) = some t) :
    (State.start ts).eof = t := by
  unfold State.start
  dsimp only
  rw [h]

theorem Parted.eof_start (h : Parted ts us) :
    (State.start ts).eof.Alike (State.start us).eof := by
  rcases h.find_end with ⟨hts, hus⟩ | ⟨t, u, hts, hus, htu⟩
  · obtain ⟨pos, hts⟩ := State.eof_start_of_none hts
    obtain ⟨pos', hus⟩ := State.eof_start_of_none hus
    rw [hts, hus]
    exact ⟨rfl, rfl⟩
  · rwa [State.eof_start_of_some hts, State.eof_start_of_some hus]

theorem Parted.start (h : Parted ts us) : Twin (State.start ts) (State.start us) where
  ahead := h.takeWhile
  eof := h.eof_start
  isEnd := State.eof_start ts
  arrays := rfl

end Parser

open StepLang.Parser

theorem Program.ofTokens_parted {ts us : List Token} (h : Parted ts us)
    (he : (Program.ofTokens ts).errors = []) :
    (Program.ofTokens us).errors = [] ∧
      List.Forall₂ Statement.Nests (Program.ofTokens ts).statements
        (Program.ofTokens us).statements := by
  have hstatements := (Program.ofTokensWith_out [] ts).1
  have hrun : out program (State.start ts) =
      (.ok (Program.ofTokens ts).statements, (out program (State.start ts)).2) :=
    Prod.ext hstatements rfl
  obtain ⟨-, statements, t', hrun', hclean, -, -, hnests⟩ :=
    shadows_program h.start _ _ hrun (.inr he)
  have hus : Program.ofTokens us = ⟨statements, t'.errors⟩ := by
    change (⟨(out program (State.start us)).1.toOption.getD [],
      (out program (State.start us)).2.errors⟩ : Program) = _
    rw [hrun']
    rfl
  rw [hus]
  exact ⟨hclean, hnests⟩

end StepLang
