import StepLang.Proofs.Parser.Programs

/-! # Recovery after a malformed statement

A statement that fails is passed over to the next semicolon. If it fails before its own, then that
is the next one, so nothing is lost of what stands behind. Some statements are checked only when
their semicolon has been read: a malformed one of those takes the statement behind it along.
-/

namespace StepLang

open StepLang.Parser

/-- The tokens of a statement, with neither a step nor a group in it, and its semicolon. -/
structure SimpleStatement (segment : List Token) (semicolon : Token) : Prop where
  nonempty : segment ≠ []
  inner : ∀ t ∈ segment, IsInner t.kind
  simple : ∀ t ∈ segment, isCompound t.kind = false
  ends : semicolon.kind = .symbol .semicolon

/-- The first statement of a program fails before the last of the tokens is read. -/
def FailsBeforeEnd (tokens : List Token) : Prop :=
  (out programStatement (State.start tokens)).2.ahead ≠ []

namespace SimpleStatement

variable {segment rest : List Token} {semicolon : Token}

theorem ne_endOfInput (h : SimpleStatement segment semicolon) :
    ∀ t ∈ segment ++ [semicolon], t.kind ≠ .endOfInput := by
  intro t ht
  rcases List.mem_append.mp ht with ht | ht
  · exact (h.inner t ht).2
  · obtain rfl := List.mem_singleton.mp ht
    simp [h.ends]

theorem ahead_start (h : SimpleStatement segment semicolon) (rest : List Token) :
    (State.start (segment ++ semicolon :: rest)).ahead =
      segment ++ semicolon :: (State.start rest).ahead := by
  have := State.ahead_start_append h.ne_endOfInput rest
  simpa only [List.append_assoc, List.singleton_append] using this

theorem ahead_alone (h : SimpleStatement segment semicolon) :
    (State.start (segment ++ [semicolon])).ahead = segment ++ [semicolon] :=
  h.ahead_start []

theorem tidy (h : SimpleStatement segment semicolon) : Tidy (segment ++ [semicolon]) where
  simple t ht := by
    rcases List.mem_append.mp ht with ht | ht
    · exact h.simple t ht
    · obtain rfl := List.mem_singleton.mp ht
      rw [h.ends]
      rfl
  ends t behind hs := by
    obtain ⟨before, hbefore⟩ := hs
    rcases List.eq_nil_or_concat behind with rfl | ⟨inner, last, rfl⟩
    · have ht : t = semicolon := by simpa using (List.append_inj' hbefore rfl).2
      simp [ht, h.ends]
    · have hsplit : (before ++ t :: inner) ++ [last] = segment ++ [semicolon] := by
        simpa using hbefore
      obtain ⟨rfl, -⟩ := List.append_inj' hsplit rfl
      have ht := (h.inner t (by simp)).1
      simp [ht]

/-- The frame of a statement with more tokens behind it, or none. -/
def frame (segment : List Token) (extra : Option (List Token)) (strict : Bool) : Frame where
  extra := extra
  errors := []
  watched _ := True
  bound := segment.length + 1
  tidy := true
  strict := strict
  present := false

theorem ready (h : SimpleStatement segment semicolon) {extra : Option (List Token)} {strict : Bool}
    (hs : strict = true → ∀ t ∈ segment, checksLate t.kind = false) :
    (frame segment extra strict).Ready (State.start (segment ++ [semicolon])) where
  eof := State.eof_start _
  size := by simp [State.size, h.ahead_alone, frame]
  calls _ _ := trivial
  tidy _ := by simpa only [h.ahead_alone] using h.tidy
  strict hc := by
    refine ⟨rfl, fun t ht => ?_⟩
    have ht : t ∈ segment ∨ t = semicolon := by simpa [h.ahead_alone] using ht
    rcases ht with ht | rfl
    · exact hs hc t ht
    · rw [h.ends]
      rfl
  present hc := nomatch hc

theorem start_ne_nil (h : SimpleStatement segment semicolon) (rest : List Token) :
    (State.start (segment ++ semicolon :: rest)).ahead ≠ [] := by
  simp [h.ahead_start]

theorem next_ne_semicolon (h : SimpleStatement segment semicolon) :
    (State.start (segment ++ [semicolon])).next.kind ≠ .symbol .semicolon := by
  obtain ⟨t, more, rfl⟩ := List.exists_cons_of_ne_nil h.nonempty
  rw [State.next, h.ahead_alone]
  exact (h.inner t (by simp)).1

theorem ahead_resync (h : SimpleStatement segment semicolon) {s : State}
    (hs : s.ahead <:+ segment ++ [semicolon]) : s.resync.ahead = [] := by
  rcases State.semicolon_cases s.ahead with ⟨skipped, t, behind, ha, ht, hskip⟩ | hnone
  · rw [State.resync_of_append ha hskip ht]
    exact (h.tidy.ends t behind ((List.suffix_append skipped _).trans (ha ▸ hs))).mp ht
  · rw [State.resync_of_none hnone]

theorem fails (h : SimpleStatement segment semicolon) {e : Error}
    (he : Program.ofTokens (segment ++ [semicolon]) = ⟨[], [e]⟩) :
    ∃ s, out programStatement (State.start (segment ++ [semicolon])) = (.error e, s) ∧
      s.errors = [] := by
  have hread := framed_programStatement (c := frame segment none false) (Nat.zero_le _)
    (List.length_pos_iff.mpr (h.start_ne_nil [])) (.inl rfl) (h.ready (by simp))
  generalize hs : out programStatement (State.start (segment ++ [semicolon])) = x at hread
  obtain ⟨r, s⟩ := x
  cases r with
  | ok statements =>
    -- what is read without fail is a statement
    obtain ⟨more, -, hfirst⟩ := Program.ofTokens_first (h.start_ne_nil []) (out_recover_of_ok hs)
    have hnil : statements ++ more = [] := congrArg Program.statements (hfirst.symm.trans he)
    have hsome := (hread.ok statements rfl).2 rfl h.next_ne_semicolon
    exact absurd (List.append_eq_nil_iff.mp hnil).1 hsome
  | error e' =>
    obtain ⟨more, -, hfirst⟩ :=
      Program.ofTokens_first (h.start_ne_nil []) (out_recover_of_error hs)
    have hend := h.ahead_resync (s := { s with errors := s.errors ++ [e'] })
      (h.ahead_alone ▸ hread.suffix)
    rw [out_program_nil hend, State.errors_resync] at hfirst
    have herrors : s.errors ++ [e'] = [] ++ [e] := congrArg Program.errors (hfirst.symm.trans he)
    obtain ⟨hnil, hlast⟩ := List.append_inj' herrors rfl
    obtain rfl : e' = e := by simpa using hlast
    exact ⟨s, rfl, hnil⟩

theorem extends_start (h : SimpleStatement segment semicolon) (rest : List Token) :
    (frame segment (some (State.start rest).ahead) false).Extends
      (State.start (segment ++ [semicolon])) (State.start (segment ++ semicolon :: rest)) where
  ahead := by rw [h.ahead_start, h.ahead_alone, frame, Option.getD_some, List.append_assoc]; rfl
  eof hx := nomatch hx
  errors := rfl
  last hlt := by simp [State.size, h.ahead_alone, frame] at hlt
  arrays _ _ := rfl

/-- A statement that fails before its semicolon fails alike whatever stands behind. -/
theorem fails_alike (h : SimpleStatement segment semicolon) {e : Error}
    (he : Program.ofTokens (segment ++ [semicolon]) = ⟨[], [e]⟩)
    (hf : FailsBeforeEnd (segment ++ [semicolon])) (rest : List Token) :
    ∃ skipped t, out programStatement (State.start (segment ++ semicolon :: rest)) = (.error e, t) ∧
      t.ahead = skipped ++ semicolon :: (State.start rest).ahead ∧ skipped <:+ segment ∧
      t.errors = [] ∧ ∀ name, t.arrays.contains name = [].contains name := by
  obtain ⟨s, hs, herrors⟩ := h.fails he
  have hread := framed_programStatement (c := frame segment (some (State.start rest).ahead) false)
    (Nat.zero_le _) (List.length_pos_iff.mpr (h.start_ne_nil [])) (.inr h.next_ne_semicolon)
    (h.ready (by simp))
  rw [FailsBeforeEnd, hs] at hf
  rw [hs] at hread
  have hsuffix : s.ahead <:+ segment ++ [semicolon] := h.ahead_alone ▸ hread.suffix
  obtain ⟨skipped, hskipped, hinner⟩ := (List.suffix_concat_iff.mp hsuffix).resolve_left hf
  have hcovered : Frame.Covered s := by
    cases skipped with
    | nil => exact ⟨semicolon, [], hskipped, fun hne => absurd h.ends hne⟩
    | cons u more => exact ⟨u, more ++ [semicolon], hskipped, fun _ => by simp⟩
  obtain ⟨t, ht, hext⟩ := hread.longer _ (h.extends_start rest) (.inr hcovered)
  refine ⟨skipped, t, ht, ?_, hinner, ?_, fun name => ?_⟩
  · rw [hext.ahead, hskipped, List.append_assoc]
    rfl
  · rw [hext.errors, herrors]
    rfl
  · rw [hext.arrays name trivial, (hread.arrays rfl).resolve_right hf]
    rfl

/-- If a statement fails before its semicolon, reading goes on behind it. -/
theorem resumes (h : SimpleStatement segment semicolon) {e : Error}
    (he : Program.ofTokens (segment ++ [semicolon]) = ⟨[], [e]⟩)
    (hf : FailsBeforeEnd (segment ++ [semicolon])) (rest : List Token) :
    Program.ofTokens (segment ++ semicolon :: rest) =
      ⟨(Program.ofTokens rest).statements, e :: (Program.ofTokens rest).errors⟩ := by
  obtain ⟨skipped, t, ht, hahead, hinner, herrors, harrays⟩ := h.fails_alike he hf rest
  have hrecovered := out_recover_of_error ht
  have hresync := State.resync_of_append (s := { t with errors := t.errors ++ [e] }) hahead
    (fun u hu => (h.inner u (hinner.subset hu)).1) h.ends
  rw [hresync, ← List.singleton_append, ← List.append_assoc] at hrecovered
  have happend := Program.ofTokens_append [] h.ne_endOfInput (by simp) hrecovered rfl harrays
  simpa [herrors, Program.ofTokens_eq] using happend

theorem failsBeforeEnd (h : SimpleStatement segment semicolon) {e : Error}
    (he : Program.ofTokens (segment ++ [semicolon]) = ⟨[], [e]⟩)
    (hs : ∀ t ∈ segment, checksLate t.kind = false) :
    FailsBeforeEnd (segment ++ [semicolon]) := by
  obtain ⟨s, hout, -⟩ := h.fails he
  have hpos := List.length_pos_iff.mpr (h.start_ne_nil [])
  have hread := framed_programStatement (c := frame segment none true) hpos hpos (.inl rfl)
    (h.ready fun _ => hs)
  rw [hout] at hread
  rw [FailsBeforeEnd, hout]
  exact List.length_pos_iff.mp (hread.error e rfl)

end SimpleStatement

/-- A statement that fails before its semicolon leaves the program behind that semicolon as it is.
Only the checks of `checksLate`, made once the semicolon is read, keep a statement that fails from
doing so: `set;` takes the next statement with it. -/
theorem malformed_statement_costs_itself {segment : List Token} {semicolon : Token} {e : Error}
    (h : SimpleStatement segment semicolon)
    (he : Program.ofTokens (segment ++ [semicolon]) = ⟨[], [e]⟩) :
    (FailsBeforeEnd (segment ++ [semicolon]) → ∀ rest,
      Program.ofTokens (segment ++ semicolon :: rest) =
        ⟨(Program.ofTokens rest).statements, e :: (Program.ofTokens rest).errors⟩) ∧
    ((∀ t ∈ segment, checksLate t.kind = false) → FailsBeforeEnd (segment ++ [semicolon])) :=
  ⟨h.resumes he, h.failsBeforeEnd he⟩

/-- The tokens of `z = max(x,`, a call without its last argument. -/
def unfinishedCall : List Token :=
  [⟨.name "z", "z", ⟨1, 1⟩⟩, ⟨.symbol .assign, "=", ⟨1, 3⟩⟩, ⟨.keyword .MAX, "max", ⟨1, 5⟩⟩,
    ⟨.symbol .leftParen, "(", ⟨1, 8⟩⟩, ⟨.name "x", "x", ⟨1, 9⟩⟩, ⟨.symbol .comma, ",", ⟨1, 10⟩⟩]

/-- The tokens of a set statement without data sets. -/
def emptySet : List Token := [⟨.keyword .SET, "set", ⟨1, 8⟩⟩]

def firstSemicolon : Token := ⟨.symbol .semicolon, ";", ⟨1, 11⟩⟩

/-- The tokens of `x = 1; y = 2;` in the second line. -/
def assignments : List Token :=
  [⟨.name "x", "x", ⟨2, 1⟩⟩, ⟨.symbol .assign, "=", ⟨2, 3⟩⟩, ⟨.number 1, "1", ⟨2, 5⟩⟩,
    ⟨.symbol .semicolon, ";", ⟨2, 6⟩⟩, ⟨.name "y", "y", ⟨2, 8⟩⟩, ⟨.symbol .assign, "=", ⟨2, 10⟩⟩,
    ⟨.number 2, "2", ⟨2, 12⟩⟩, ⟨.symbol .semicolon, ";", ⟨2, 13⟩⟩]

theorem simpleStatement_unfinishedCall : SimpleStatement unfinishedCall firstSemicolon where
  nonempty := by decide
  inner := by simp [unfinishedCall, IsInner]
  simple := by decide
  ends := rfl

theorem simpleStatement_emptySet : SimpleStatement emptySet firstSemicolon where
  nonempty := by decide
  inner := by simp [emptySet, IsInner]
  simple := by decide
  ends := rfl

theorem malformed_statement_costs_itself_unfinishedCall :
    Program.ofTokens (unfinishedCall ++ [firstSemicolon]) =
        ⟨[], [.unexpectedToken "expression" (.symbol .semicolon) ⟨1, 11⟩]⟩ ∧
      Program.ofTokens (unfinishedCall ++ firstSemicolon :: assignments) =
        ⟨[.single (.assign (.ref "x") (.number 1)), .single (.assign (.ref "y") (.number 2))],
          [.unexpectedToken "expression" (.symbol .semicolon) ⟨1, 11⟩]⟩ := by
  have he : Program.ofTokens (unfinishedCall ++ [firstSemicolon]) =
      ⟨[], [.unexpectedToken "expression" (.symbol .semicolon) ⟨1, 11⟩]⟩ := rfl
  have h := malformed_statement_costs_itself simpleStatement_unfinishedCall he
  exact ⟨he, h.1 (h.2 (by decide)) assignments⟩

/-- The list of a set statement is found empty when its semicolon has been read. -/
theorem malformed_set_takes_next_statement :
    SimpleStatement emptySet firstSemicolon ∧
      Program.ofTokens (emptySet ++ [firstSemicolon]) =
        ⟨[], [.unexpectedToken "dataset name" (.symbol .semicolon) ⟨1, 11⟩]⟩ ∧
      (Program.ofTokens assignments).statements =
        [.single (.assign (.ref "x") (.number 1)), .single (.assign (.ref "y") (.number 2))] ∧
      (Program.ofTokens (emptySet ++ firstSemicolon :: assignments)).statements =
        [.single (.assign (.ref "y") (.number 2))] :=
  ⟨simpleStatement_emptySet, rfl, rfl, rfl⟩

end StepLang
