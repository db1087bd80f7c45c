import StepLang.Proofs.Parser.StatementProgress

/-! # Parsing finishes

A parser is a cursor over the tokens, which are closed by an end of input. Every pass of every loop
moves the cursor forward or is the last one. So the bounds on loops and on nesting are never
reached, and parsing ends with the cursor at the first end of input.
-/

namespace StepLang

namespace Parser

variable {α β : Type} {s s' : State} {tokens : List Token} {i : Nat}

/-! ### The cursor -/

/-- The tokens, with an end of input behind them unless the last one is one. -/
def closed (tokens : List Token) : List Token :=
  match tokens.getLast? with
  | none => [⟨.endOfInput, "", .start⟩]
  | some t => if t.kind = .endOfInput then tokens else tokens ++ [⟨.endOfInput, "", t.pos⟩]

/-- Where the first end of input stands. -/
def endIndex (tokens : List Token) : Nat :=
  (closed tokens).findIdx (·.kind == .endOfInput)

/-- The state has its cursor before the token with an index. -/
structure AtCursor (tokens : List Token) (i : Nat) (s : State) : Prop where
  le : i ≤ endIndex tokens
  ahead : s.ahead = ((closed tokens).take (endIndex tokens)).drop i
  eof : (closed tokens)[endIndex tokens]? = some s.eof
  last : (closed tokens)[i - 1]? = some s.last

theorem find?_closed (tokens : List Token) :
    (closed tokens).find? (·.kind == .endOfInput) = some (State.start tokens).eof := by
  unfold State.start closed
  dsimp only
  cases hlast : tokens.getLast? with
  | none =>
    rw [List.getLast?_eq_none_iff] at hlast
    subst hlast
    rfl
  | some t =>
    dsimp only
    cases hfind : tokens.find? (·.kind == .endOfInput) with
    | some eof =>
      split
      · exact hfind
      · rw [List.find?_append, hfind]
        rfl
    | none =>
      have hk : t.kind ≠ .endOfInput := by
        simpa using List.find?_eq_none.mp hfind t (List.mem_of_getLast? hlast)
      rw [if_neg hk, List.find?_append, hfind]
      rfl

theorem getElem?_endIndex (tokens : List Token) :
    (closed tokens)[endIndex tokens]? = some (State.start tokens).eof := by
  rw [endIndex, ← List.find?_eq_getElem?_findIdx, find?_closed]

theorem endIndex_lt (tokens : List Token) : endIndex tokens < (closed tokens).length :=
  (List.getElem?_eq_some_iff.mp (getElem?_endIndex tokens)).1

theorem take_endIndex (tokens : List Token) :
    (closed tokens).take (endIndex tokens) = (State.start tokens).ahead := by
  have htake : (closed tokens).take (endIndex tokens) =
      (closed tokens).takeWhile (! ·.kind == .endOfInput) := by
    rw [List.takeWhile_eq_take_findIdx_not, endIndex]
    simp only [Bool.not_not]
  rw [htake, State.start, closed]
  split
  · rename_i hlast
    rw [List.getLast?_eq_none_iff.mp hlast]
    rfl
  · split
    · rfl
    · rw [List.takeWhile_append]
      split
      · rename_i hall
        rw [(List.takeWhile_prefix _).eq_of_length hall]
        exact List.append_nil _
      · rfl

namespace AtCursor

theorem size_eq (h : AtCursor tokens i s) : s.size = endIndex tokens - i := by
  have hlt := endIndex_lt tokens
  rw [State.size, h.ahead, List.length_drop, List.length_take]
  omega

theorem getElem?_min (h : AtCursor tokens i s) (k : Nat) :
    (closed tokens)[min (i + k) (endIndex tokens)]? = some (s.ahead[k]?.getD s.eof) := by
  have hlt := endIndex_lt tokens
  by_cases hk : i + k < endIndex tokens
  · have hahead : s.ahead[k]? = (closed tokens)[i + k]? := by
      rw [h.ahead, List.getElem?_drop, List.getElem?_take, if_pos hk]
    rw [Nat.min_eq_left (Nat.le_of_lt hk), hahead, List.getElem?_eq_getElem (by omega),
      Option.getD_some]
  · have hsize := h.size_eq
    have hahead : s.ahead[k]? = none := by
      rw [State.size] at hsize
      rw [List.getElem?_eq_none_iff]
      omega
    rw [Nat.min_eq_right (by omega), hahead, Option.getD_none, h.eof]

theorem next (h : AtCursor tokens i s) : (closed tokens)[i]? = some s.next := by
  have hnext := h.getElem?_min 0
  rwa [Nat.add_zero, Nat.min_eq_left h.le, ← List.head?_eq_getElem?,
    ← List.headD_eq_head?_getD] at hnext

theorem second (h : AtCursor tokens i s) :
    (closed tokens)[min (i + 1) (endIndex tokens)]? = some s.second := by
  rw [h.getElem?_min 1, State.second, List.headD_eq_head?_getD, List.head?_tail]

theorem eof_kind (h : AtCursor tokens i s) : s.eof.kind = .endOfInput := by
  have heof := h.eof
  rw [getElem?_endIndex] at heof
  rw [← Option.some.inj heof]
  exact State.eof_start tokens

/-- A parser that moves on takes the cursor with it. -/
theorem moves (h : AtCursor tokens i s) (hm : Moves s s') :
    AtCursor tokens (i + (s.size - s'.size)) s' := by
  obtain ⟨⟨read, hread, hlast⟩, heof⟩ := hm
  have hsize : s.size - s'.size = read.length := by
    rw [State.size, State.size, hread, List.length_append, Nat.add_sub_cancel]
  have hle : read.length ≤ s.size := by
    rw [State.size, hread, List.length_append]
    exact Nat.le_add_right _ _
  have hcursor := h.size_eq
  have hbound := h.le
  rw [hsize]
  refine ⟨by omega, ?_, heof ▸ h.eof, ?_⟩
  · rw [← List.drop_drop, ← h.ahead, hread, List.drop_left]
  · cases read using List.reverseRecOn with
    | nil =>
      rw [hlast]
      exact h.last
    | append_singleton read t =>
      have hget := h.getElem?_min read.length
      rw [List.length_append, List.length_singleton] at hle ⊢
      have hindex : i + (read.length + 1) - 1 = min (i + read.length) (endIndex tokens) := by omega
      rw [hindex, hget, hlast, List.getLastD_concat, hread, List.append_assoc,
        List.getElem?_append_right (Nat.le_refl _), Nat.sub_self]
      rfl

end AtCursor

theorem atCursor_start (tokens : List Token) : AtCursor tokens 0 (State.start tokens) := by
  have hpos : 0 < (closed tokens).length := Nat.lt_of_le_of_lt (Nat.zero_le _) (endIndex_lt tokens)
  have hahead : (State.start tokens).ahead = ((closed tokens).take (endIndex tokens)).drop 0 := by
    rw [List.drop_zero, take_endIndex]
  -- the token read last is the first one as long as none has been read
  have hfirst :
      AtCursor tokens 0 { State.start tokens with last := (closed tokens).get ⟨0, hpos⟩ } :=
    ⟨Nat.zero_le _, hahead, getElem?_endIndex tokens, List.getElem?_eq_getElem hpos⟩
  exact ⟨Nat.zero_le _, hahead, getElem?_endIndex tokens, hfirst.next⟩

/-! ### The loops -/

/-- The loops of the parsers by their passes: over programs, steps, groups and procedures, over the
tokens of steps that are passed over, over operators, arguments and names in expressions, and over
lists and options. -/
inductive IsLoop : {α β : Type} → (α → Parser (Pass α β)) → Prop
  | program : IsLoop programPass
  | step : IsLoop stepPass
  | group (depth : Nat) : IsLoop (doPass (statementUpTo depth))
  | sort : IsLoop (procedurePass sortStatement)
  | means : IsLoop (procedurePass meansStatement)
  | print : IsLoop (procedurePass printStatement)
  | freq : IsLoop (procedurePass freqStatement)
  | sql : IsLoop sqlPass
  | skipped : IsLoop skipPass
  | operators (depth strength : Nat) : IsLoop (operationPass depth strength)
  | arguments (depth : Nat) : IsLoop (argumentPass (operation depth 1))
  | variableList : IsLoop variablePass
  | datasets : IsLoop (listPass datasetItem)
  | keys : IsLoop (listPass byItem)
  | names : IsLoop (listPass nameItem)
  | retained : IsLoop (listPass retainItem)
  | lengths : IsLoop (listPass lengthItem)
  | fields : IsLoop (listPass inputItem)
  | options : IsLoop (listPass optionItem)
  | libnameOptions : IsLoop (listPass libnameItem)
  | macroText : IsLoop (listPass macroItem)
  | sortOptions : IsLoop (listPass (procedureItem sortOption))
  | meansOptions : IsLoop (listPass (procedureItem meansOption))
  | printOptions : IsLoop (listPass (procedureItem printOption))
  | freqOptions : IsLoop (listPass (procedureItem freqOption))
  | summaries : IsLoop (listPass meansItem)
  | columns : IsLoop columnPass

theorem Proceeds.passes {pass : α → Parser (Pass α β)} {a : α} {Q : β → State → Prop}
    (h : Proceeds (pass a) (pass a) s (Passes s Q)) :
    Proceeds (pass a) (pass a) s (Passes s fun _ _ => True) := by
  refine h.mono fun r s' _ hr => ?_
  cases r with
  | again a => exact hr
  | done b => trivial

/-- A pass reads a token unless it is the last one. -/
theorem IsLoop.proceeds {pass : α → Parser (Pass α β)} (h : IsLoop pass) (a : α) (s : State) :
    Proceeds (pass a) (pass a) s (Passes s fun _ _ => True) := by
  cases h with
  | program => exact (proceeds_programPass a).passes
  | step => exact (proceeds_stepPass a).passes
  | group depth => exact (proceeds_doPass (fun s _ => proceeds_statementUpTo (.inl rfl)) a).passes
  | sort => exact (proceeds_procedurePass (fun a s => proceeds_sortStatement a) a).passes
  | means => exact (proceeds_procedurePass (fun a s => proceeds_meansStatement a) a).passes
  | print => exact (proceeds_procedurePass (fun a s => proceeds_printStatement a) a).passes
  | freq => exact (proceeds_procedurePass (fun a s => proceeds_freqStatement a) a).passes
  | sql => exact proceeds_sqlPass.passes
  | skipped => exact proceeds_skipPass.passes
  | operators depth strength =>
    exact (proceeds_operationPass _ a fun k s _ => proceeds_operation k (.inl rfl)).passes
  | arguments depth =>
    exact (proceeds_argumentPass (fun s _ => proceeds_operation 1 (.inl rfl)) a).passes
  | variableList => exact (proceeds_variablePass a).passes
  | datasets => exact (proceeds_listPass fun _ => proceeds_datasetItem a).passes
  | keys => exact (proceeds_listPass fun _ => proceeds_byItem a).passes
  | names => exact (proceeds_listPass fun _ => proceeds_nameItem a).passes
  | retained => exact (proceeds_listPass fun _ => proceeds_retainItem a).passes
  | lengths => exact (proceeds_listPass fun _ => proceeds_lengthItem a).passes
  | fields => exact (proceeds_listPass fun _ => proceeds_inputItem a).passes
  | options => exact (proceeds_listPass fun _ => proceeds_optionItem a).passes
  | libnameOptions => exact (proceeds_listPass fun _ => proceeds_libnameItem a).passes
  | macroText => exact (proceeds_listPass fun _ => proceeds_macroItem a).passes
  | sortOptions =>
    exact (proceeds_listPass fun _ => proceeds_procedureItem isOption_sortOption a).passes
  | meansOptions =>
    exact (proceeds_listPass fun _ => proceeds_procedureItem isOption_meansOption a).passes
  | printOptions =>
    exact (proceeds_listPass fun _ => proceeds_procedureItem isOption_printOption a).passes
  | freqOptions =>
    exact (proceeds_listPass fun _ => proceeds_procedureItem isOption_freqOption a).passes
  | summaries => exact (proceeds_listPass fun _ => proceeds_meansItem a).passes
  | columns => exact (proceeds_columnPass a).passes

/-- A pass of a loop takes the cursor on, and farther than it was if the loop goes on. -/
theorem IsLoop.forward {pass : α → Parser (Pass α β)} (h : IsLoop pass) (hc : AtCursor tokens i s)
    (a : α) : ∃ j, i ≤ j ∧ AtCursor tokens j (out (pass a) s).2 ∧
      ∀ a', (out (pass a) s).1 = .ok (.again a') → i < j := by
  obtain ⟨-, hmoves, hok⟩ := h.proceeds a s hc.eof_kind
  refine ⟨_, Nat.le_add_right _ _, hc.moves hmoves, fun a' ha => ?_⟩
  have hlt : (out (pass a) s).2.size < s.size := hok _ ha
  omega

/-- A loop does not come to its bound. -/
theorem IsLoop.out_repeatUpTo {pass : α → Parser (Pass α β)} (h : IsLoop pass)
    (he : s.eof.kind = .endOfInput) (a : α) {n : Nat} (hn : s.size < n) :
    out (repeatUpTo pass n a) s = out (repeated a pass) s := by
  have hloop : Proceeds (repeatUpTo pass (s.size + 1) a) (repeatUpTo pass n a) s fun _ _ => True :=
    .repeatUpTo (.inr ⟨Nat.lt_succ_self _, hn⟩) fun a s' _ => h.proceeds a s'
  exact (hloop he).1

/-! ### Nesting -/

/-- A bound on the nesting of statements that exceeds the tokens ahead is not reached. -/
theorem out_statementUpTo_of_lt (he : s.eof.kind = .endOfInput) {n : Nat} (hn : s.size < n) :
    out (statementUpTo n) s = out stepStatement s := by
  have hsame : Proceeds (statementUpTo (s.size + 1)) (statementUpTo n) s (Shorter s) :=
    proceeds_statementUpTo (.inr ⟨Nat.lt_succ_self _, hn⟩)
  rw [stepStatement, out_bind_of_ok (out_get s), ← State.size, (hsame he).1]

theorem out_alternative_of_lt (he : s.eof.kind = .endOfInput) (depth : Nat) {n : Nat}
    (hn : s.size < n) :
    out (alternative (statementUpTo depth) n) s =
      out (alternative (statementUpTo depth) (s.size + 1)) s := by
  have hnested : Nested s.size (statementUpTo depth) (statementUpTo depth) :=
    fun _ _ => proceeds_statementUpTo (.inl rfl)
  exact (proceeds_alternative hnested (.inr ⟨Nat.lt_succ_self _, hn⟩) he).1

theorem out_operation_of_lt (he : s.eof.kind = .endOfInput) {n : Nat} (hn : s.size < n) :
    out (operation n 1) s = out expression s := by
  have hsame : Proceeds (operation (s.size + 1) 1) (operation n 1) s (Shorter s) :=
    proceeds_operation 1 (.inr ⟨Nat.lt_succ_self _, hn⟩)
  rw [expression, out_bind_of_ok (out_get s), ← State.size, (hsame he).1]

theorem out_unary_of_lt (he : s.eof.kind = .endOfInput) (depth : Nat) {n : Nat} (hn : s.size < n) :
    out (unary (operation depth 1) n) s = out (unary (operation depth 1) (s.size + 1)) s := by
  have hnested : Nested s.size (operation depth 1) (operation depth 1) :=
    fun _ _ => proceeds_operation 1 (.inl rfl)
  exact (proceeds_unary hnested (.inr ⟨Nat.lt_succ_self _, hn⟩) he).1

/-! ### Whole programs -/

theorem proceeds_program : Proceeds program program s fun _ s' => s'.ahead = [] := by
  rw [program_eq]
  refine .repeated fun statements s' _ => (proceeds_programPass statements).mono fun r t _ hr => ?_
  cases r with
  | again statements => exact hr
  | done statements =>
    obtain ⟨rfl, hnil⟩ := hr
    exact hnil

theorem atCursor_program (tokens : List Token) :
    AtCursor tokens (endIndex tokens) (out program (State.start tokens)).2 := by
  have hstart := atCursor_start tokens
  obtain ⟨-, hmoves, hok⟩ := proceeds_program (State.eof_start tokens)
  have hnil := hok _ (Program.ofTokensWith_out [] tokens).1
  have hcursor := hstart.moves hmoves
  have hsize : (out program (State.start tokens)).2.size = 0 := by rw [State.size, hnil]; rfl
  rw [hsize, hstart.size_eq, Nat.zero_add, Nat.sub_zero, Nat.sub_zero] at hcursor
  exact hcursor

/-- Reading a token moves the cursor by one, but not past the first end of input. -/
theorem AtCursor.advance (h : AtCursor tokens i s) :
    AtCursor tokens (min (i + 1) (endIndex tokens)) s.step := by
  have hcursor := h.moves (.step s)
  have hle := h.le
  have hsize := h.size_eq
  rcases Nat.eq_zero_or_pos s.size with hzero | hpos
  · rw [hzero, Nat.zero_sub, Nat.add_zero] at hcursor
    rwa [Nat.min_eq_right (by omega), show endIndex tokens = i by omega]
  · have hstep : s.size - s.step.size = 1 := by
      simp only [State.step, State.size, List.length_tail] at hpos ⊢
      omega
    rw [hstep] at hcursor
    rwa [Nat.min_eq_left (by omega)]

end Parser

open StepLang.Parser

/-- Parsing finishes, whatever the tokens are: it comes to the first end of input. On the way the
token to be read, the one behind it and the one read last are among the tokens. A pass of a loop,
also one whose statement is malformed and passed over, moves the cursor forward unless it is the
last one, and no loop and no nested call comes to its bound. -/
theorem Program.ofTokens_finishes (tokens : List Token) :
    (∃ s, out program (State.start tokens) = (.ok (Program.ofTokens tokens).statements, s) ∧
      s.errors = (Program.ofTokens tokens).errors ∧ AtCursor tokens (endIndex tokens) s) ∧
    AtCursor tokens 0 (State.start tokens) ∧
    ∀ i s, AtCursor tokens i s →
      ((closed tokens)[i]? = some s.next ∧
        (closed tokens)[min (i + 1) (endIndex tokens)]? = some s.second ∧
        (closed tokens)[i - 1]? = some s.last) ∧
      (out advance s = (.ok s.next, s.step) ∧
        AtCursor tokens (min (i + 1) (endIndex tokens)) s.step) ∧
      (∀ {α β : Type} (pass : α → Parser (Pass α β)), IsLoop pass → ∀ a,
        (∃ j, i ≤ j ∧ AtCursor tokens j (out (pass a) s).2 ∧
          ∀ a', (out (pass a) s).1 = .ok (.again a') → i < j) ∧
        ∀ n, s.size < n → out (repeatUpTo pass n a) s = out (repeated a pass) s) ∧
      ∀ n, s.size < n →
        out (statementUpTo n) s = out stepStatement s ∧
        out (operation n 1) s = out expression s ∧
        ∀ depth,
          out (alternative (statementUpTo depth) n) s =
            out (alternative (statementUpTo depth) (s.size + 1)) s ∧
          out (unary (operation depth 1) n) s =
            out (unary (operation depth 1) (s.size + 1)) s := by
  obtain ⟨hresult, herrors⟩ := Program.ofTokensWith_out [] tokens
  refine ⟨⟨_, Prod.ext hresult rfl, herrors, atCursor_program tokens⟩, atCursor_start tokens, ?_⟩
  intro i s hc
  have he := hc.eof_kind
  refine ⟨⟨hc.next, hc.second, hc.last⟩, ⟨out_advance s, hc.advance⟩, ?_, ?_⟩
  · intro α β pass hloop a
    exact ⟨hloop.forward hc a, fun n hn => hloop.out_repeatUpTo he a hn⟩
  · intro n hn
    exact ⟨out_statementUpTo_of_lt he hn, out_operation_of_lt he hn,
      fun depth => ⟨out_alternative_of_lt he depth hn, out_unary_of_lt he depth hn⟩⟩

end StepLang
