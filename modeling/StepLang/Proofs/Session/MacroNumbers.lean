import StepLang.Proofs.Parser.Printing
import StepLang.Proofs.Session.InStream
import StepLang.Proofs.Token.Numerals

/-! # Numbers in macro variables

A macro variable keeps the text of the tokens that it is given. A numeral is one token, so what a
macro variable is given as a numeral is the same number where it is used. A sign is a token of its
own: behind it the text is no numeral any more.
-/

namespace StepLang

open Token

/-! ### The statements -/

def letText (v : String) (n : Numeral) : String := "%let " ++ v ++ " = " ++ n.text ++ ";"

def useText (y v : String) : String := y ++ " = &" ++ v ++ ";"

def literalText (y : String) (n : Numeral) : String := y ++ " = " ++ n.text ++ ";"

def letItems (v : String) (n : Numeral) : List (Token.Kind × String) :=
  [(.macroWord .LET, "%let"), (.name v, v), (.symbol .assign, "="), (.number n.value, n.text),
    (.symbol .semicolon, ";")]

def assignItems (y : String) (value : Token.Kind × String) : List (Token.Kind × String) :=
  [(.name y, y), (.symbol .assign, "="), value, (.symbol .semicolon, ";")]

section Scan

variable {v y : String} {rest : List Char} {items : List (Token.Kind × String)}

theorem cutsTo_let (hv : IsPlainName v) (n : Numeral) (h : CutsTo true rest items) :
    CutsTo true ((letText v n).toList ++ rest) (letItems v n ++ items) := by
  have htext : (letText v n).toList ++ rest =
      '%' :: 'l' :: 'e' :: 't' :: ' ' :: (v.toList ++ ' ' :: '=' :: ' ' ::
        (n.chars ++ ';' :: rest)) := by
    simp [letText]
  rw [htext]
  exact .letWord (.blank (.name hv rfl (.blank (.assign (.blank (.numeral n (.semicolon h)))))))

theorem cutsTo_literal (hy : IsPlainName y) (n : Numeral) (h : CutsTo true rest items) :
    CutsTo true ((literalText y n).toList ++ rest)
      (assignItems y (.number n.value, n.text) ++ items) := by
  have htext : (literalText y n).toList ++ rest =
      y.toList ++ ' ' :: '=' :: ' ' :: (n.chars ++ ';' :: rest) := by
    simp [literalText]
  rw [htext]
  exact .name hy rfl (.blank (.assign (.blank (.numeral n (.semicolon h)))))

theorem cutsTo_use (hy : IsPlainName y) (hv : IsPlainName v) (h : CutsTo true rest items) :
    CutsTo true ((useText y v).toList ++ rest)
      (assignItems y (.macroName v, String.ofList ('&' :: v.toList)) ++ items) := by
  have htext : (useText y v).toList ++ rest =
      y.toList ++ ' ' :: '=' :: ' ' :: ('&' :: v.toList ++ ';' :: rest) := by
    simp [useText]
  rw [htext]
  refine .name hy rfl (.blank (.assign (.blank (.macroReference hv rfl ?_ (.semicolon h)))))
  simp

end Scan

/-! ### Parsing -/

namespace Parser

variable {v y : String} {marks rest : List Token} {e : Expression}

theorem reads_atom {t u : Token} (ht : atom? t.kind = some e) (hu : u.kind = .symbol .semicolon) :
    Reads expression (t :: u :: rest) e (u :: rest) := by
  intro s hs
  have hop : unaryOp? s.next.kind = none := by
    rw [State.next_of_ahead hs]
    unfold atom? at ht
    split at ht <;> simp_all [unaryOp?]
  have hfirst : out (unary (operation s.size 1) (s.size + 1)) s = (.ok e, s.skip [t]) := by
    rw [out_unary_primary hop, out_primary_atom hs ht]
  have hahead : (s.skip [t]).ahead = u :: rest := State.ahead_skip hs
  refine ⟨s.skip [t], ?_, hahead, rfl⟩
  unfold expression
  rw [out_bind_of_ok (out_get s)]
  exact (out_operation hfirst).trans (out_operationPass_stop (by
    rw [State.next_of_ahead hahead, hu]
    simp [binaryOp?]))

theorem reads_nextIsAssign {t u : Token} (hu : u.kind = .symbol .assign) :
    Reads nextIsAssign (t :: u :: rest) true (t :: u :: rest) := by
  refine Reads.peekNext.bind ?_
  rw [hu, beq_self_eq_true]
  exact .pure _ _

theorem reads_expectAssign {t : Token} (ht : t.kind = .symbol .assign) :
    Reads (expectSymbol .assign "=") (t :: rest) () rest :=
  (Reads.accept ht).bind (.pure _ _)

theorem reads_assign {value : Token.Kind × String} (he : atom? value.1 = some e)
    (hm : marks.map (fun t => (t.kind, t.lexeme)) = assignItems y value) :
    Reads programStatement (marks ++ rest) [.single (.assign (.ref y) e)] rest := by
  obtain ⟨name, marks, rfl, hname, hm⟩ := List.map_eq_cons_iff.mp hm
  obtain ⟨eq, marks, rfl, heq, hm⟩ := List.map_eq_cons_iff.mp hm
  obtain ⟨atom, marks, rfl, hatom, hm⟩ := List.map_eq_cons_iff.mp hm
  obtain ⟨semi, marks, rfl, hsemi, hm⟩ := List.map_eq_cons_iff.mp hm
  obtain rfl := List.map_eq_nil_iff.mp hm
  obtain ⟨hname, -⟩ := Prod.mk.inj hname
  obtain ⟨heq, -⟩ := Prod.mk.inj heq
  obtain ⟨hsemi, -⟩ := Prod.mk.inj hsemi
  have hatom : atom? atom.kind = some e := by rw [← he, ← hatom]
  have hassignment : Reads assignment (name :: eq :: atom :: semi :: rest)
      (.assign (.ref y) e) rest := by
    refine (Reads.expectName hname).bind ((reads_expectAssign heq).bind ?_)
    exact (reads_atom hatom hsemi).bind ((Reads.expectSemicolon hsemi).bind (.pure _ _))
  have hstatement : Reads stepStatement (name :: eq :: atom :: semi :: rest)
      (.assign (.ref y) e) rest := by
    refine Reads.get fun s _ => Reads.peek.bind ?_
    simp only [Token.name?, hname]
    exact (reads_nextIsAssign heq).bind hassignment
  have hsetting : Reads setting? (name :: eq :: atom :: semi :: rest) none
      (name :: eq :: atom :: semi :: rest) :=
    (reads_nextIsAssign heq).bind (.pure _ _)
  refine (reads_nextIsAssign heq).bind (Reads.peek.bind ?_)
  rw [hname]
  exact hsetting.bind (hstatement.bind (.pure _ _))

theorem reads_let {v : String} {n : Numeral}
    (hm : marks.map (fun t => (t.kind, t.lexeme)) = letItems v n) :
    Reads programStatement (marks ++ rest) [.macroLet v n.text] rest := by
  obtain ⟨word, marks, rfl, hword, hm⟩ := List.map_eq_cons_iff.mp hm
  obtain ⟨name, marks, rfl, hname, hm⟩ := List.map_eq_cons_iff.mp hm
  obtain ⟨eq, marks, rfl, heq, hm⟩ := List.map_eq_cons_iff.mp hm
  obtain ⟨numeral, marks, rfl, hnumeral, hm⟩ := List.map_eq_cons_iff.mp hm
  obtain ⟨semi, marks, rfl, hsemi, hm⟩ := List.map_eq_cons_iff.mp hm
  obtain rfl := List.map_eq_nil_iff.mp hm
  obtain ⟨hword, -⟩ := Prod.mk.inj hword
  obtain ⟨hname, -⟩ := Prod.mk.inj hname
  obtain ⟨heq, -⟩ := Prod.mk.inj heq
  obtain ⟨hnumber, hlexeme⟩ := Prod.mk.inj hnumeral
  obtain ⟨hsemi, -⟩ := Prod.mk.inj hsemi
  have hitem : Reads (macroItem []) (numeral :: semi :: rest) [n.text] (semi :: rest) := by
    refine Reads.atEnd.bind (Reads.advance.bind ?_)
    rw [hnumber, hlexeme]
    exact .pure _ _
  have hlist : Reads (repeated [] (listPass macroItem)) (numeral :: semi :: rest) [n.text]
      (semi :: rest) := by
    refine .repeated (.again (reads_listPass (by simp [hnumber]) hitem) ?_)
    exact .done (reads_listPass_done _ hsemi)
  have hlet : Reads macroLetStatement (word :: name :: eq :: numeral :: semi :: rest)
      (.macroLet v n.text) rest := by
    rw [macroLetStatement_eq]
    refine Reads.advance.bind ((Reads.expectName hname).bind ?_)
    refine (reads_expectAssign heq).bind (hlist.bind ?_)
    exact (Reads.expectSemicolon hsemi).bind (.pure _ _)
  have hnext : Reads nextIsAssign (word :: name :: eq :: numeral :: semi :: rest) false _ :=
    Reads.nextIsAssign (by simp [hname])
  have hsetting : Reads setting? (word :: name :: eq :: numeral :: semi :: rest)
      (some (.macroLet v n.text)) rest := by
    refine hnext.bind (Reads.peek.bind ?_)
    rw [hword]
    exact hlet.bind (.pure _ _)
  refine hnext.bind (Reads.peek.bind ?_)
  rw [hword]
  exact hsetting.bind (.pure _ _)

end Parser

/-! ### Running -/

/-- The text of a statement is cut into tokens and read by itself, whatever follows. -/
def ReadsAs (text : String) (statement : Statement) : Prop :=
  ∃ items : List (Token.Kind × String), items ≠ [] ∧ (∀ i ∈ items, i.1 ≠ .endOfInput) ∧
    (∀ rest more, CutsTo true rest more → CutsTo true (text.toList ++ rest) (items ++ more)) ∧
    ∀ marks rest : List Token, marks.map (fun t => (t.kind, t.lexeme)) = items →
      Parser.Reads Parser.programStatement (marks ++ rest) [statement] rest

def programText (texts : List String) : String := String.join (texts.map (· ++ "\n"))

theorem toList_programText_cons (text : String) (texts : List String) :
    (programText (text :: texts)).toList = text.toList ++ '\n' :: (programText texts).toList := by
  simp [programText, String.toList_join]

/-- Statements that are read by themselves are cut and read one after the other. -/
theorem exists_items_programText {l : List (String × Statement)} (h : ∀ p ∈ l, ReadsAs p.1 p.2) :
    ∃ items : List (Token.Kind × String), (∀ i ∈ items, i.1 ≠ .endOfInput) ∧
      CutsTo true (programText (l.map (·.1))).toList (items ++ [(.endOfInput, "")]) ∧
      ∀ (marks : List Token) read n, marks.map (fun t => (t.kind, t.lexeme)) = items →
        marks.length < n →
          Parser.Reads (Parser.repeatUpTo Parser.programPass n read) marks
            (read ++ l.map (·.2)) [] := by
  induction l with
  | nil =>
    refine ⟨[], by simp, CutsTo.nil, fun marks read n hm hn => ?_⟩
    obtain rfl := List.map_eq_nil_iff.mp hm
    obtain ⟨n, rfl⟩ := Nat.exists_eq_succ_of_ne_zero (Nat.ne_of_gt hn)
    rw [List.map_nil, List.append_nil]
    exact .done (Parser.reads_programPass_done read)
  | cons p l ih =>
    rw [List.forall_mem_cons] at h
    obtain ⟨⟨first, hne, hfirst, hcut, hread⟩, hl⟩ := h
    obtain ⟨items, hitems, hcuts, hreads⟩ := ih hl
    refine ⟨first ++ items, List.forall_mem_append.mpr ⟨hfirst, hitems⟩, ?_, ?_⟩
    · rw [List.map_cons, toList_programText_cons, List.append_assoc]
      exact hcut _ _ (.newLine hcuts)
    · intro marks read n hm hn
      obtain ⟨ms, marks, rfl, hms, hmarks⟩ := List.map_eq_append_iff.mp hm
      have hpass := hread ms marks hms
      cases ms with
      | nil => exact absurd hms.symm hne
      | cons t ms =>
        rw [List.length_append, List.length_cons] at hn
        obtain ⟨n, rfl⟩ : ∃ k, n = k + 1 := ⟨n - 1, by omega⟩
        have hrest := hreads marks (read ++ [p.2]) n hmarks (by omega)
        rw [List.append_assoc] at hrest
        exact .again (Parser.reads_programPass read hpass) hrest

section Statements

variable {v y : String}

theorem readsAs_let (hv : IsPlainName v) (n : Numeral) :
    ReadsAs (letText v n) (.macroLet v n.text) :=
  ⟨letItems v n, by simp [letItems], by simp [letItems], fun _ _ h => cutsTo_let hv n h,
    fun _ _ hm => Parser.reads_let hm⟩

theorem readsAs_literal (hy : IsPlainName y) (n : Numeral) :
    ReadsAs (literalText y n) (.single (.assign (.ref y) (.number n.value))) :=
  ⟨assignItems y (.number n.value, n.text), by simp [assignItems], by simp [assignItems],
    fun _ _ h => cutsTo_literal hy n h, fun _ _ hm => Parser.reads_assign rfl hm⟩

theorem readsAs_use (hy : IsPlainName y) (hv : IsPlainName v) :
    ReadsAs (useText y v) (.single (.assign (.ref y) (.macroRef v))) :=
  ⟨assignItems y (.macroName v, String.ofList ('&' :: v.toList)), by simp [assignItems],
    by simp [assignItems], fun _ _ h => cutsTo_use hy hv h,
    fun _ _ hm => Parser.reads_assign rfl hm⟩

end Statements

namespace Session

theorem run_programText (s : Session) {l : List (String × Statement)}
    (h : ∀ p ∈ l, ReadsAs p.1 p.2) : s.run (programText (l.map (·.1))) =
      (.ok (s.execute (l.map (·.2))).1, (s.execute (l.map (·.2))).2) := by
  obtain ⟨items, hitems, hcuts, hreads⟩ := exists_items_programText h
  obtain ⟨tokens, hscan, htokens⟩ := hcuts .start
  obtain ⟨marks, tail, rfl, hmarks, htail⟩ := List.map_eq_append_iff.mp htokens
  obtain ⟨eof, tail, rfl, heof, htail⟩ := List.map_eq_cons_iff.mp htail
  obtain rfl := List.map_eq_nil_iff.mp htail
  have hinner : ∀ t ∈ marks, t.kind ≠ .endOfInput := by
    intro t ht
    exact hitems (t.kind, t.lexeme) (hmarks ▸ List.mem_map_of_mem ht)
  have hprogram : Parser.Reads Parser.program marks (l.map (·.2)) [] := by
    rw [Parser.program_eq]
    exact .repeated (hreads marks [] _ hmarks (Nat.lt_succ_self _))
  exact run_of_program hscan
    (Program.ofTokens_of_reads hinner (Prod.mk.inj heof).1 hprogram) rfl

theorem execute_macroLet (s : Session) (name value : String) (rest : List Statement) :
    s.execute (.macroLet name value :: rest) =
      execute { s with macros := s.macros.insert name (Text.trim value) } rest := by
  have hstatement : (Action.statement (.macroLet name value)).run.run s =
      (.ok [], { s with macros := s.macros.insert name (Text.trim value) }) := rfl
  rw [execute, hstatement]
  rfl

theorem execute_assign {s : Session} {e : Expression} {value : Value} (name : String)
    (hlog : evaluationLog s.scope e = []) (hvalue : evaluate s.scope e = .ok value)
    (rest : List Statement) :
    s.execute (.single (.assign (.ref name) e) :: rest) =
      execute { s with vars := s.vars.insert name value } rest := by
  have hassign : (Action.assign name e).out s =
      (.ok (), { s with vars := s.vars.insert name value }) := by
    have hnone : (Action.log []).out s = (.ok (), s) := by simp
    unfold Action.assign
    rw [Action.out_bind_of_ok (Action.out_get s)]
    dsimp only
    rw [hlog, Action.out_bind_of_ok hnone, hvalue]
    rfl
  have hstatement : (Action.statement (.single (.assign (.ref name) e))).run.run s =
      (.ok [], { s with vars := s.vars.insert name value }) := by
    change (Action.assign name e >>= fun _ => pure []).out s = _
    rw [Action.out_bind_of_ok hassign]
    rfl
  rw [execute, hstatement]
  rfl

theorem execute_literal (s : Session) (y : String) (n : Numeral) :
    s.execute [.single (.assign (.ref y) (.number n.value))] =
      ([], { s with vars := s.vars.insert y (.number n.value) }) :=
  execute_assign y rfl rfl []

theorem macroValue_text (n : Numeral) : macroValue n.text = .number n.value := by
  delta macroValue
  rw [Text.trim_of_forall n.isBlank_text, n.read?_text]

theorem evaluate_macroRef {scope : Scope} {v text : String} (h : scope.macroText? v = some text) :
    evaluate scope (.macroRef v) = .ok (macroValue text) ∧
      evaluationLog scope (.macroRef v) = [] := by
  -- both ask for the one macro variable only
  have hvalue : evaluate scope (.macroRef v) =
      evaluate { scope with macroText? := fun _ => scope.macroText? v } (.macroRef v) := rfl
  have hunknown : unresolved scope (.macroRef v) =
      if (scope.macroText? v).isSome then [] else [v] := rfl
  rw [hvalue, evaluationLog, hunknown, h]
  exact ⟨rfl, rfl⟩

/-- The text of a numeral is used as its number. -/
theorem execute_use {s : Session} {n : Numeral} {v : String} (h : s.macros.find? v = some n.text)
    (y : String) : s.execute [.single (.assign (.ref y) (.macroRef v))] =
      ([], { s with vars := s.vars.insert y (.number n.value) }) := by
  obtain ⟨hvalue, hlog⟩ := @evaluate_macroRef s.scope _ _ h
  rw [macroValue_text] at hvalue
  exact execute_assign y hlog hvalue []

/-- The program runs without an error and leaves the variable with the value. -/
def Sets (s : Session) (source y : String) (value : Value) : Prop :=
  (s.run source).1 = .ok [] ∧ (s.run source).2.value y = value

theorem sets_of_run {s s' : Session} {source y : String} {value : Value}
    (h : s.run source = (.ok [], { s' with vars := s'.vars.insert y value })) :
    s.Sets source y value := by
  refine ⟨by rw [h], ?_⟩
  rw [h, Session.value]
  dsimp only
  rw [NameMap.find?_insert_self]
  rfl

/-- A macro variable that is given a numeral stands for its number: the assignment of the macro
variable leaves what the assignment of the numeral leaves, whether the macro variable is given the
numeral by a program before it or by the same one. -/
theorem macro_numeral_reads_back (s : Session) (n : Numeral) {v y : String}
    (hv : IsPlainName v) (hy : IsPlainName y) :
    s.Sets (programText [literalText y n]) y (.number n.value) ∧
      (s.run (programText [letText v n])).1 = .ok [] ∧
      (s.run (programText [letText v n])).2.Sets (programText [useText y v]) y (.number n.value) ∧
      s.Sets (programText [letText v n, useText y v]) y (.number n.value) := by
  have hlet := readsAs_let hv n
  have huse := readsAs_use hy hv
  -- the macro variable holds the text of the numeral, which has no blanks
  have hheld : (s.macros.insert v (Text.trim n.text)).find? v = some n.text := by
    rw [NameMap.find?_insert_self, Text.trim_of_forall n.isBlank_text]
  have hliteral := s.run_programText (l := [(literalText y n, _)])
    (List.forall_mem_singleton.mpr (readsAs_literal hy n))
  have hdefine := s.run_programText (l := [(letText v n, _)]) (List.forall_mem_singleton.mpr hlet)
  have hboth := s.run_programText (l := [(letText v n, _), (useText y v, _)])
    (List.forall_mem_cons.mpr ⟨hlet, List.forall_mem_singleton.mpr huse⟩)
  have hthen (s' : Session) := s'.run_programText (l := [(useText y v, _)])
    (List.forall_mem_singleton.mpr huse)
  simp only [List.map_cons, List.map_nil] at hliteral hdefine hboth hthen
  rw [execute_literal] at hliteral
  rw [execute_macroLet] at hdefine hboth
  rw [execute_use hheld] at hboth
  refine ⟨sets_of_run hliteral, by rw [hdefine]; rfl, ?_, sets_of_run hboth⟩
  rw [hdefine]
  apply sets_of_run
  rw [hthen, execute, execute_use hheld]

def quarter : Numeral where
  whole := []
  fraction := some ['2', '5']
  isDigit := by simp
  nonempty := by decide

theorem macro_numeral_reads_back_quarter :
    (Session.start {} {} 0).2.Sets "y = .25;\n" "y" (.number 0.25) ∧
      ((Session.start {} {} 0).2.run "%let v = .25;\n").2.Sets "y = &v;\n" "y" (.number 0.25) ∧
      (Session.start {} {} 0).2.Sets "%let v = .25;\ny = &v;\n" "y" (.number 0.25) := by
  have hv : IsPlainName "v" := ⟨⟨'v', [], rfl, rfl, rfl⟩, by decide +kernel⟩
  have hy : IsPlainName "y" := ⟨⟨'y', [], rfl, rfl, rfl⟩, by decide +kernel⟩
  have hvalue : quarter.value = 0.25 := by decide +kernel
  obtain ⟨hliteral, -, hthen, hboth⟩ :=
    macro_numeral_reads_back (Session.start {} {} 0).2 quarter hv hy
  have hliteralText : programText [literalText "y" quarter] = "y = .25;\n" := by decide +kernel
  have hletText : programText [letText "v" quarter] = "%let v = .25;\n" := by decide +kernel
  have huseText : programText [useText "y" "v"] = "y = &v;\n" := by decide +kernel
  have hbothText : programText [letText "v" quarter, useText "y" "v"] =
      "%let v = .25;\ny = &v;\n" := by decide +kernel
  rw [hvalue, hliteralText] at hliteral
  rw [hvalue, hletText, huseText] at hthen
  rw [hvalue, hbothText] at hboth
  exact ⟨hliteral, hthen, hboth⟩

/-- A sign is a token of its own, and the text of the macro variable gets a blank behind it: the
assignment of the number itself leaves a number, and that of the macro variable a text. -/
theorem macro_signed_numeral_is_text :
    (Session.start {} {} 0).2.Sets "y = -5;\n" "y" (.number (-5.0)) ∧
      (Session.start {} {} 0).2.Sets "%let v = -5;\ny = &v;\n" "y" (.text "- 5") ∧
      ¬ (Session.start {} {} 0).2.Sets "%let v = -5;\ny = &v;\n" "y" (.number (-5.0)) := by
  have herrors {r : Except Error (List Error)} (h : r.toOption.map (·.isEmpty) = some true) :
      r = .ok [] := by
    cases r with
    | error e => cases h
    | ok errors => rw [List.isEmpty_iff.mp (Option.some.inj h)]
  have hliteral : (Session.start {} {} 0).2.Sets "y = -5;\n" "y" (.number (-5.0)) :=
    ⟨herrors (by decide +kernel), by decide +kernel⟩
  have htext : (Session.start {} {} 0).2.Sets "%let v = -5;\ny = &v;\n" "y" (.text "- 5") :=
    ⟨herrors (by decide +kernel), by decide +kernel⟩
  refine ⟨hliteral, htext, fun hnumber => ?_⟩
  cases htext.2.symm.trans hnumber.2

end Session

end StepLang
