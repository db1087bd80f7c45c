import StepLang.Proofs.Parser.Composed
import StepLang.Proofs.Parser.Progress

/-! # Diagnostics of the parsers

Whatever the tokens are, every error of a parser is one of its own stage, whether the parser fails
with it or reports it and goes on.
-/

namespace StepLang.Parser

variable {α β : Type}

/-! ### Errors thrown and errors kept -/

/-- The errors reported so far are errors of parsing. -/
def State.Diagnosed (s : State) : Prop := ∀ e ∈ s.errors, e.stage = .parsing

/-- The parser reports errors of parsing only, and fails with such errors only. -/
def Diagnoses (p : Parser α) : Prop :=
  ∀ s, s.Diagnosed → (out p s).2.Diagnosed ∧ ∀ e, (out p s).1 = .error e → e.stage = .parsing

theorem State.Diagnosed.report {s : State} (hs : s.Diagnosed) {e : Error}
    (he : e.stage = .parsing) : State.Diagnosed { s with errors := s.errors ++ [e] } :=
  List.forall_mem_append.mpr ⟨hs, List.forall_mem_singleton.mpr he⟩

namespace Diagnoses

variable {p : Parser α} {f : α → Parser β}

theorem pure {a : α} : Diagnoses (Pure.pure a) := fun _ hs => ⟨hs, fun _ h => nomatch h⟩

theorem throw {e : Error} (he : e.stage = .parsing) : Diagnoses (throw e : Parser α) := by
  refine fun s hs => ⟨hs, ?_⟩
  rintro _ ⟨⟩
  exact he

theorem bind (hp : Diagnoses p) (hf : ∀ a, Diagnoses (f a)) : Diagnoses (p >>= f) := by
  intro s hs
  obtain ⟨hkept, hthrown⟩ := hp s hs
  generalize hout : out p s = x at hkept hthrown
  obtain ⟨r, t⟩ := x
  cases r with
  | error e =>
    rw [out_bind_of_error hout]
    exact ⟨hkept, fun e' he' => hthrown e' (congrArg Except.error (Except.error.inj he'))⟩
  | ok a =>
    rw [out_bind_of_ok hout]
    exact hf a t hkept

theorem modify {g : State → State} (hg : ∀ s, (g s).errors = s.errors) :
    Diagnoses (modify g) := by
  refine fun s hs => ⟨fun e he => hs e (hg s ▸ he), fun _ h => nomatch h⟩

theorem look {l : State → α} (hl : ∀ s, out p s = (.ok (l s), s)) : Diagnoses p := by
  intro s hs
  rw [hl]
  exact ⟨hs, fun _ h => nomatch h⟩

theorem recover (hp : Diagnoses p) : Diagnoses (recover p) := by
  intro s hs
  obtain ⟨hkept, hthrown⟩ := hp s hs
  generalize hout : out p s = x at hkept hthrown
  obtain ⟨r, t⟩ := x
  cases r with
  | error e =>
    rw [out_recover_of_error hout]
    refine ⟨fun e' he' => ?_, fun _ h => nomatch h⟩
    rw [State.errors_resync] at he'
    exact hkept.report (hthrown e rfl) e' he'
  | ok a =>
    rw [out_recover_of_ok hout]
    exact ⟨hkept, fun _ h => nomatch h⟩

theorem report {e : Error} (he : e.stage = .parsing) : Diagnoses (report e) :=
  fun _ hs => ⟨hs.report he, fun _ h => nomatch h⟩

end Diagnoses

/-- Reporting errors of parsing only passes to what is put together from such parsers. -/
theorem composes_diagnoses : Composes fun p => Diagnoses p where
  pure := .pure
  bind := .bind
  throw := .throw
  peek := .look out_peek
  advance s hs := by
    rw [out_advance]
    exact ⟨hs, fun _ h => nomatch h⟩
  sized _ h s hs := h _ s hs
  peekNext := .look out_peekNext
  previous := .look out_previous
  atEnd := .look out_atEnd
  isArray name := .look (out_isArray name)
  modify hg := .modify fun s => (hg s).1
  report := .report
  recover := .recover

end StepLang.Parser

namespace StepLang

/-- Every diagnostic of a program is one of parsing. -/
theorem Program.stage_of_mem_errors {tokens : List Token} {e : Error}
    (he : e ∈ (Program.ofTokens tokens).errors) : e.stage = .parsing :=
  (Parser.composes_diagnoses.program (Parser.State.start tokens) (List.forall_mem_nil _)).1 e he

end StepLang
