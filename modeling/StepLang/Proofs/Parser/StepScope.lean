import StepLang.Proofs.Parser.Composed

/-! # Steps and what stands behind them

A DATA step that has its own end is parsed alike whatever stands behind it, and what stands behind
is parsed as it is by itself, but for the arrays that the step has declared. The head of the next
DATA step makes them forgotten; the statements before that still take them for arrays.
-/

namespace StepLang.Parser

variable {α β : Type} {s : State}

/-! ### Parsers that do not look at arrays -/

/-- The parser neither looks at the arrays declared before nor declares one. -/
def Blind (p : Parser α) : Prop :=
  ∀ s arrays, out p { s with arrays } = ((out p s).1, { (out p s).2 with arrays })

theorem Blind.bind {p : Parser α} {f : α → Parser β} (hp : Blind p) (hf : ∀ a, Blind (f a)) :
    Blind (p >>= f) := by
  intro s arrays
  rw [out_bind, out_bind, hp s arrays]
  generalize out p s = x
  obtain ⟨r, s'⟩ := x
  cases r with
  | ok a => exact hf a s' arrays
  | error e => rfl

/-- Not looking at arrays passes to what is put together from such parsers. -/
theorem sequences_blind : Sequences fun p => Blind p where
  pure _ _ := rfl
  bind := .bind
  throw _ _ _ := rfl
  peek _ _ := rfl
  advance s arrays := by
    rw [out_advance, out_advance]
    rfl
  sized _ h s := h s.ahead.length s

/-! ### Steps -/

/-- A DATA step begins, and not an assignment to a variable of that name. -/
structure BeginsStep (s : State) : Prop where
  word : s.next.kind = .keyword .DATA
  notAssigned : s.second.kind ≠ .symbol .assign

theorem BeginsStep.out_programStatement (h : BeginsStep s) :
    out programStatement s = out dataStep s := by
  have hassign : out nextIsAssign s = (.ok false, s) := by
    rw [← beq_eq_false_iff_ne.mpr h.notAssigned]
    rfl
  unfold programStatement
  rw [out_bind_of_ok hassign, out_bind_of_ok (out_peek s), h.word]

theorem BeginsStep.ne_nil (h : BeginsStep s) (he : s.eof.kind = .endOfInput) : s.ahead ≠ [] := by
  intro hnil
  have hword := h.word
  rw [State.next, hnil] at hword
  exact absurd (he.symm.trans hword) (by simp)

/-- A step whose head is in order forgets the arrays declared before. -/
theorem out_openStep_arrays {outputs : List DatasetRef} {s₁ : State}
    (h : out stepHead s = (.ok outputs, s₁)) (arrays : List String) :
    out openStep { s with arrays } = out openStep s := by
  have hblind := sequences_blind.stepHead s arrays
  rw [h] at hblind
  unfold openStep
  rw [out_bind_of_ok hblind, out_bind_of_ok h, out_bind_of_ok (out_modify _ _),
    out_bind_of_ok (out_modify _ _)]

theorem out_dataStep_arrays {outputs : List DatasetRef} {s₁ : State}
    (h : out stepHead s = (.ok outputs, s₁)) (arrays : List String) :
    out dataStep { s with arrays } = out dataStep s := by
  rw [dataStep_eq, out_bind, out_bind, out_openStep_arrays h arrays]

theorem out_recover_congr {p : Parser α} {t : State} (h : out p s = out p t) :
    out (recover p) s = out (recover p) t := by
  unfold recover
  rw [out_bind_of_ok (out_attempt p s), out_bind_of_ok (out_attempt p t), h]

theorem out_finishStep {run semicolon : Token} {behind : List Token}
    (h : s.ahead = run :: semicolon :: behind) (hrun : run.kind = .keyword .RUN)
    (hsemicolon : semicolon.kind = .symbol .semicolon) :
    out finishStep s = (.ok (), { s with ahead := behind, last := semicolon }) := by
  obtain ⟨ahead, eof, last, errors, arrays⟩ := s
  simp only at h
  subst h
  unfold finishStep
  rw [out_bind_of_ok (out_peek _)]
  simp only [State.next, List.headD_cons, hrun]
  rw [out_bind_of_ok (out_advance _)]
  unfold expectSemicolon expectSymbol
  rw [out_bind, out_accept]
  simp [State.step, State.next, hsemicolon]

end StepLang.Parser

namespace StepLang

open StepLang.Parser

/-- The tokens of one DATA step without errors, whose last two are its own RUN. -/
structure ClosedStep (tokens : List Token) : Prop where
  ne_endOfInput : ∀ t ∈ tokens, t.kind ≠ .endOfInput
  begins : BeginsStep (State.start tokens)
  clean : (Program.ofTokens tokens).errors = []
  ownEnd : ∃ run semicolon, (out openStep (State.start tokens)).2.ahead = [run, semicolon] ∧
    run.kind = .keyword .RUN ∧ semicolon.kind = .symbol .semicolon

def declaredArrays (tokens : List Token) : List String :=
  (out openStep (State.start tokens)).2.arrays

namespace ClosedStep

variable {tokens : List Token}

theorem ahead_start (h : ClosedStep tokens) (rest : List Token) :
    (State.start (tokens ++ rest)).ahead = tokens ++ (State.start rest).ahead :=
  State.ahead_start_append h.ne_endOfInput rest

theorem ahead_alone (h : ClosedStep tokens) : (State.start tokens).ahead = tokens := by
  have halone := h.ahead_start []
  rw [List.append_nil] at halone
  exact halone.trans (List.append_nil _)

theorem ne_nil (h : ClosedStep tokens) : tokens ≠ [] :=
  h.ahead_alone ▸ h.begins.ne_nil (State.eof_start tokens)

def frame (tokens rest : List Token) : Frame where
  extra := some (State.start rest).ahead
  errors := []
  watched _ := True
  bound := tokens.length
  tidy := false
  strict := false
  present := false

theorem ready (tokens rest : List Token) : (frame tokens rest).Ready (State.start tokens) where
  eof := State.eof_start _
  size := (List.takeWhile_prefix _).length_le
  calls _ _ := trivial
  tidy hc := nomatch hc
  strict hc := nomatch hc
  present hc := nomatch hc

theorem extends_start (h : ClosedStep tokens) (rest : List Token) :
    (frame tokens rest).Extends (State.start tokens) (State.start (tokens ++ rest)) where
  ahead := by
    rw [h.ahead_start, h.ahead_alone]
    rfl
  eof hx := nomatch hx
  errors := rfl
  last hlt := by
    rw [State.size, h.ahead_alone] at hlt
    exact absurd hlt (Nat.lt_irrefl _)
  arrays _ _ := rfl

theorem opened (h : ClosedStep tokens) :
    ∃ parts s, out openStep (State.start tokens) = (.ok parts, s) := by
  obtain ⟨run, semicolon, hahead, hrun, hsemicolon⟩ := h.ownEnd
  generalize hs : out openStep (State.start tokens) = x at hahead
  obtain ⟨r, s⟩ := x
  cases r with
  | ok parts => exact ⟨parts, s, rfl⟩
  | error e =>
    have hout : out programStatement (State.start tokens) = (.error e, s) := by
      rw [h.begins.out_programStatement, dataStep_eq]
      exact out_bind_of_error hs
    obtain ⟨more, -, hfirst⟩ := Program.ofTokens_first
      (h.begins.ne_nil (State.eof_start tokens)) (out_recover_of_error hout)
    have hskipped : s.ahead = [run] ++ [semicolon] := hahead
    have hresync := State.resync_of_append (s := { s with errors := s.errors ++ [e] }) hskipped
      (by simp [hrun]) hsemicolon
    have herrors := congrArg Program.errors hfirst
    rw [h.clean, hresync, out_program_nil rfl] at herrors
    simp at herrors

theorem framed_start (h : ClosedStep tokens) (rest : List Token) :
    Ran (frame tokens rest) (State.start tokens) (out openStep (State.start tokens)).2
      (out openStep (State.start tokens)).1 openStep
      fun _ s' => s'.size < (State.start tokens).size :=
  framed_openStep rfl rfl (by simp [IsInner, h.begins.word]) (ready tokens rest)

theorem enough (h : ClosedStep tokens) (rest : List Token) :
    (frame tokens rest).Enough (out openStep (State.start tokens)).2 := by
  obtain ⟨run, semicolon, hahead, -, -⟩ := h.ownEnd
  exact .inr ⟨run, [semicolon], hahead, by simp⟩

theorem begins_append (h : ClosedStep tokens) (rest : List Token) :
    BeginsStep (State.start (tokens ++ rest)) := by
  have hext := h.extends_start rest
  have henough := (h.enough rest).of_suffix (h.framed_start rest).suffix
  constructor
  · rw [hext.next henough]
    exact h.begins.word
  · rw [hext.second henough (.inr (by simp [h.begins.word]))]
    exact h.begins.notAssigned

/-- A step is read alike whatever stands behind it. -/
theorem out_dataStep (h : ClosedStep tokens) {parts : StepParts} {s : State}
    (hs : out openStep (State.start tokens) = (.ok parts, s)) (rest : List Token) :
    ∃ t, out dataStep (State.start (tokens ++ rest)) = (.ok parts.statements, t) ∧
      t.ahead = (State.start rest).ahead ∧ t.errors = s.errors ∧
      ∀ name, t.arrays.contains name = s.arrays.contains name := by
  obtain ⟨run, semicolon, hahead, hrun, hsemicolon⟩ := h.ownEnd
  obtain ⟨t, ht, hext⟩ := (h.framed_start rest).longer _ (h.extends_start rest) (h.enough rest)
  rw [hs] at ht hext hahead
  have hbehind : t.ahead = run :: semicolon :: (State.start rest).ahead := by
    rw [hext.ahead, hahead]
    rfl
  refine ⟨{ t with ahead := (State.start rest).ahead, last := semicolon }, ?_, rfl, hext.errors,
    fun name => hext.arrays name trivial⟩
  rw [dataStep_eq, out_bind_of_ok ht, out_bind_of_ok (out_finishStep hbehind hrun hsemicolon)]
  rfl

theorem ofTokens_append (h : ClosedStep tokens) {parts : StepParts} {s : State}
    (hs : out openStep (State.start tokens) = (.ok parts, s)) (rest : List Token) :
    Program.ofTokens (tokens ++ rest) =
      ⟨parts.statements ++ (Program.ofTokensWith (declaredArrays tokens) rest).statements,
        s.errors ++ (Program.ofTokensWith (declaredArrays tokens) rest).errors⟩ := by
  obtain ⟨t, ht, hahead, herrors, harrays⟩ := h.out_dataStep hs rest
  have hread : out (recover programStatement) (State.start (tokens ++ rest)) =
      (.ok (some parts.statements), t) := by
    apply out_recover_of_ok
    rw [(h.begins_append rest).out_programStatement, ht]
  rw [declaredArrays, hs, ← herrors]
  exact Program.ofTokens_append s.arrays h.ne_endOfInput h.ne_nil hread hahead harrays

/-- A step gives its settings and itself, and no error comes before those behind it. -/
theorem ofTokens_eq (h : ClosedStep tokens) : ∃ parts s,
    out openStep (State.start tokens) = (.ok parts, s) ∧ s.errors = [] ∧
      Program.ofTokens tokens = ⟨parts.statements, []⟩ := by
  obtain ⟨parts, s, hs⟩ := h.opened
  have halone := h.ofTokens_append hs []
  have hclean := h.clean
  rw [List.append_nil] at halone
  rw [halone] at hclean
  have hnil : s.errors = [] := (List.append_eq_nil_iff.mp hclean).1
  refine ⟨parts, s, hs, hnil, ?_⟩
  rw [halone, hnil]
  exact congrArg (Program.mk · []) (List.append_nil _)

end ClosedStep

/-- Which arrays were declared before does not show: none of them is called, or a DATA step whose
head is in order comes first. -/
def HidesArrays (arrays : List String) (tokens : List Token) : Prop :=
  (∀ name ∈ callNames (State.start tokens).ahead, name ∉ arrays) ∨
    BeginsStep (State.start tokens) ∧
      ∃ outputs s, out stepHead (State.start tokens) = (.ok outputs, s)

theorem Program.ofTokensWith_congr {arrays : List String} {tokens : List Token}
    (hresult : (out program (State.startWith arrays tokens)).1 =
      (out program (State.start tokens)).1)
    (herrors : (out program (State.startWith arrays tokens)).2.errors =
      (out program (State.start tokens)).2.errors) :
    Program.ofTokensWith arrays tokens = Program.ofTokens tokens := by
  change Program.mk ((out program (State.startWith arrays tokens)).1.toOption.getD [])
    (out program (State.startWith arrays tokens)).2.errors = _
  rw [hresult, herrors]
  rfl

theorem HidesArrays.ofTokensWith {arrays : List String} {tokens : List Token}
    (h : HidesArrays arrays tokens) :
    Program.ofTokensWith arrays tokens = Program.ofTokens tokens := by
  rcases h with hcalls | ⟨hbegins, outputs, s, hhead⟩
  · have halike : Alike [] (State.start tokens) (State.startWith arrays tokens) := by
      refine ⟨rfl, State.eof_start tokens, fun _ => rfl, rfl, fun name hname => ?_⟩
      simpa [State.startWith, State.start] using hcalls name hname
    exact Program.ofTokensWith_congr halike.out_program.1 halike.out_program.2
  · have hkind := State.eof_start tokens
    have hne := hbegins.ne_nil hkind
    have hbegins' : BeginsStep (State.startWith arrays tokens) :=
      ⟨hbegins.word, hbegins.notAssigned⟩
    have hsame : out (recover programStatement) (State.startWith arrays tokens) =
        out (recover programStatement) (State.start tokens) := by
      apply out_recover_congr
      rw [hbegins'.out_programStatement, hbegins.out_programStatement]
      exact out_dataStep_arrays hhead arrays
    obtain ⟨r, s₁, hr⟩ := out_recover_ok programStatement (State.start tokens)
    obtain ⟨hresult, herrors⟩ := out_program_cons hkind hne hr
    obtain ⟨hresult', herrors'⟩ := out_program_cons (s := State.startWith arrays tokens) hkind hne
      (hsame.trans hr)
    exact Program.ofTokensWith_congr (hresult'.trans hresult.symm) (herrors'.trans herrors.symm)

/-- A closed step is read as one step, and what follows it as with the arrays the step declared,
which outlive their step. A text that calls none of their names, or begins with a step of its own,
is read as if that step were not there. -/
theorem closed_step_parses_apart {tokens : List Token} (h : ClosedStep tokens) :
    (∃ settings outputs body,
      Program.ofTokens tokens = ⟨settings ++ [.dataStep outputs body], []⟩) ∧
    ∀ rest, Program.ofTokens (tokens ++ rest) =
        ⟨(Program.ofTokens tokens).statements ++
            (Program.ofTokensWith (declaredArrays tokens) rest).statements,
          (Program.ofTokensWith (declaredArrays tokens) rest).errors⟩ ∧
      (HidesArrays (declaredArrays tokens) rest → Program.ofTokens (tokens ++ rest) =
        ⟨(Program.ofTokens tokens).statements ++ (Program.ofTokens rest).statements,
          (Program.ofTokens tokens).errors ++ (Program.ofTokens rest).errors⟩) := by
  obtain ⟨parts, s, hs, herrors, halone⟩ := h.ofTokens_eq
  refine ⟨⟨_, _, _, halone⟩, fun rest => ?_⟩
  have happend := h.ofTokens_append hs rest
  rw [herrors, List.nil_append] at happend
  rw [halone]
  refine ⟨happend, fun hhides => ?_⟩
  rw [happend, hhides.ofTokensWith]
  rfl

/-- The tokens of `data d; array a{1} x; run;`. -/
def arrayStep : List Token :=
  [⟨.keyword .DATA, "data", ⟨1, 1⟩⟩, ⟨.name "d", "d", ⟨1, 6⟩⟩, ⟨.symbol .semicolon, ";", ⟨1, 7⟩⟩,
    ⟨.keyword .ARRAY, "array", ⟨1, 9⟩⟩, ⟨.name "a", "a", ⟨1, 15⟩⟩,
    ⟨.symbol .leftBrace, "\x7b", ⟨1, 16⟩⟩, ⟨.number 1, "1", ⟨1, 17⟩⟩,
    ⟨.symbol .rightBrace, "\x7d", ⟨1, 18⟩⟩, ⟨.name "x", "x", ⟨1, 20⟩⟩,
    ⟨.symbol .semicolon, ";", ⟨1, 21⟩⟩, ⟨.keyword .RUN, "run", ⟨1, 23⟩⟩,
    ⟨.symbol .semicolon, ";", ⟨1, 26⟩⟩]

/-- The tokens of `y = a(1);`. -/
def callOfName : List Token :=
  [⟨.name "y", "y", ⟨2, 9⟩⟩, ⟨.symbol .assign, "=", ⟨2, 11⟩⟩, ⟨.name "a", "a", ⟨2, 13⟩⟩,
    ⟨.symbol .leftParen, "(", ⟨2, 14⟩⟩, ⟨.number 1, "1", ⟨2, 15⟩⟩,
    ⟨.symbol .rightParen, ")", ⟨2, 16⟩⟩, ⟨.symbol .semicolon, ";", ⟨2, 17⟩⟩]

/-- The tokens of `data e; y = a(1); run;`. -/
def callInStep : List Token :=
  [⟨.keyword .DATA, "data", ⟨2, 1⟩⟩, ⟨.name "e", "e", ⟨2, 6⟩⟩, ⟨.symbol .semicolon, ";", ⟨2, 7⟩⟩] ++
    callOfName ++ [⟨.keyword .RUN, "run", ⟨2, 19⟩⟩, ⟨.symbol .semicolon, ";", ⟨2, 22⟩⟩]

theorem closedStep_arrayStep : ClosedStep arrayStep where
  ne_endOfInput := by simp [arrayStep]
  begins := ⟨rfl, by decide⟩
  clean := List.isEmpty_iff.mp (by decide +kernel)
  ownEnd := ⟨⟨.keyword .RUN, "run", ⟨1, 23⟩⟩, ⟨.symbol .semicolon, ";", ⟨1, 26⟩⟩,
    by decide +kernel, rfl, rfl⟩

theorem hidesArrays_callInStep : HidesArrays (declaredArrays arrayStep) callInStep :=
  .inr ⟨⟨rfl, by decide⟩, _, _, rfl⟩

theorem closed_step_parses_apart_arrayStep : "A" ∈ declaredArrays arrayStep ∧
    "A" ∈ callNames callInStep ∧ Program.ofTokens (arrayStep ++ callInStep) =
      ⟨(Program.ofTokens arrayStep).statements ++ (Program.ofTokens callInStep).statements,
        (Program.ofTokens arrayStep).errors ++ (Program.ofTokens callInStep).errors⟩ :=
  ⟨by decide +kernel, by decide +kernel,
    ((closed_step_parses_apart closedStep_arrayStep).2 callInStep).2 hidesArrays_callInStep⟩

/-- Behind a step the name of its array still stands for the array, not for a function. -/
theorem declared_array_outlives_step : ClosedStep arrayStep ∧
    Program.ofTokens callOfName =
      ⟨[.single (.assign (.ref "y") (.call "a" [.number 1]))], []⟩ ∧
    Program.ofTokens (arrayStep ++ callOfName) =
      ⟨(Program.ofTokens arrayStep).statements ++
        [.single (.assign (.ref "y") (.element "a" (.number 1)))], []⟩ := by
  refine ⟨closedStep_arrayStep, rfl, ?_⟩
  have harrays : declaredArrays arrayStep = ["A"] := by decide +kernel
  have hwith : Program.ofTokensWith ["A"] callOfName =
      ⟨[.single (.assign (.ref "y") (.element "a" (.number 1)))], []⟩ := by
    with_unfolding_all rfl
  obtain ⟨parts, s, hs, herrors, halone⟩ := closedStep_arrayStep.ofTokens_eq
  rw [closedStep_arrayStep.ofTokens_append hs callOfName, harrays, hwith, herrors, halone]
  rfl

end StepLang
