import Mathlib.Data.Bool.Basic
import Mathlib.Data.List.Nodup
import StepLang.Proofs.DataStep.Faults
import StepLang.Proofs.NumberCounts
import StepLang.Proofs.Parser.Progress

/-! # Statements from a parser

Parsing checks lists and numbers as it reads them. Whatever the tokens are, no statement that it
gives has an empty list where one name at least is needed, or a size or length of zero, also not
inside of other statements and also not behind malformed ones.
-/

namespace StepLang

open DataStep (Fragment)

/-! ### Well-formed statements -/

/-- The statements that a DATA step may have, as they are called in messages. -/
def stepKeywords : List String :=
  ["assignment", "IF-THEN", "IF", "DO", "SET", "MERGE", "BY", "ARRAY", "DROP", "KEEP", "RETAIN",
    "LENGTH", "INPUT", "DATALINES", "OUTPUT", "DELETE", "STOP"]

/-- What the statements of a DATA step are called that begin with the token. -/
def Token.opens (t : Token) : List String :=
  (if t.name?.isSome then ["assignment"] else []) ++
    match t.kind with
    | .symbol .semicolon | .keyword .DO => ["DO"]
    | .keyword .IF => ["IF", "IF-THEN"]
    | .keyword .SET => ["SET"]
    | .keyword .MERGE => ["MERGE"]
    | .keyword .BY => ["BY"]
    | .keyword .ARRAY => ["ARRAY"]
    | .keyword .DROP => ["DROP"]
    | .keyword .KEEP => ["KEEP"]
    | .keyword .RETAIN => ["RETAIN"]
    | .keyword .LENGTH => ["LENGTH"]
    | .keyword .INPUT => ["INPUT"]
    | .keyword .DATALINES => ["DATALINES"]
    | .keyword .OUTPUT => ["OUTPUT"]
    | .keyword .DELETE => ["DELETE"]
    | .keyword .STOP => ["STOP"]
    | _ => []

theorem Token.opens_subset (t : Token) : t.opens ⊆ stepKeywords := by
  unfold Token.opens
  apply List.append_subset.mpr
  constructor
  · split <;> decide
  · split <;> decide

namespace StepStatement

/-- The lists of a statement itself are not empty where they may not be, and its sizes and lengths
are right; the statements inside it are left out. -/
def Complete : StepStatement → Prop
  | .set inputs => inputs ≠ []
  | .merge inputs => inputs ≠ []
  | .groupBy keys => keys ≠ []
  | .array _ size _ vars => vars ≠ [] ∧ ∀ n, size = .fixed n → vars.length = n
  | .length items => ∀ item ∈ items, 1 ≤ item.length
  | _ => True

/-- The parser of statements gives the statement, and it is of a kind that the first token opens. -/
def Parsed (s : StepStatement) : Prop :=
  ∃ depth state state', Parser.out (Parser.statementUpTo depth) state = (.ok s, state') ∧
    s.keyword ∈ state.next.opens

structure WellFormed (s : StepStatement) : Prop where
  complete : s.Complete
  parsed : s.Parsed

end StepStatement

def DataStep.Fragment.WellFormed (fragment : Fragment) : Prop :=
  ∀ s ∈ fragment.parts, s.WellFormed

/-- Each statistic of a summary that is kept has names for its columns. -/
def MeansOutput.WellFormed (output : MeansOutput) : Prop :=
  ∀ column ∈ output.columns, column.2 ≠ []

/-- No statistic is asked for twice, and a summary that is kept is well-formed. -/
structure MeansRequest.WellFormed (request : MeansRequest) : Prop where
  nodup : request.statistics.Nodup
  output : ∀ output ∈ request.output, output.WellFormed

/-- A statement of a program and the statements inside it are well-formed. -/
def Statement.WellFormed : Statement → Prop
  | .dataStep outputs body => outputs ≠ [] ∧ (Fragment.all body).WellFormed
  | .single s => (Fragment.one s).WellFormed
  | .sort request => request.keys ≠ []
  | .means request => request.vars ≠ [] ∧ request.WellFormed
  | _ => True

namespace DataStep.Fragment

variable {c : Expression} {s : StepStatement} {o : Alternative} {body rest : List StepStatement}

/-- A statement comes before those inside it. -/
theorem parts_eq_cons (s : StepStatement) : (one s).parts = s :: (one s).parts.tail := by
  cases s with
  | branch | iterate | loop | block => simp
  | _ => rfl

@[simp] theorem wellFormed_nil : (all []).WellFormed := by
  rw [WellFormed, parts_nil]
  exact List.forall_mem_nil _

@[simp] theorem wellFormed_cons :
    (all (s :: rest)).WellFormed ↔ (one s).WellFormed ∧ (all rest).WellFormed := by
  rw [WellFormed, parts_cons, List.forall_mem_append]
  rfl

@[simp] theorem wellFormed_append :
    (all (body ++ rest)).WellFormed ↔ (all body).WellFormed ∧ (all rest).WellFormed := by
  induction body with
  | nil => simp
  | cons s body ih => simp [ih, and_assoc]

@[simp] theorem wellFormed_none : (others .none).WellFormed := by
  rw [WellFormed, parts_none]
  exact List.forall_mem_nil _

@[simp] theorem wellFormed_otherwise :
    (others (.otherwise s)).WellFormed ↔ (one s).WellFormed := by
  rw [WellFormed, parts_otherwise]
  rfl

@[simp] theorem wellFormed_elseIf :
    (others (.elseIf c s o)).WellFormed ↔ (one s).WellFormed ∧ (others o).WellFormed := by
  rw [WellFormed, parts_elseIf, List.forall_mem_append]
  rfl

end DataStep.Fragment

namespace Parser

variable {α β : Type}

/-! ### Results of parsers -/

/-- Every result of the parser is as the condition says, whatever the tokens are. -/
def Yields (p : Parser α) (P : α → Prop) : Prop :=
  ∀ s a s', out p s = (.ok a, s') → P a

/-- What a pass of a loop yields, whether it is the last one or not. -/
def Pass.Yields (I : α → Prop) (P : β → Prop) : Pass α β → Prop
  | .again a => I a
  | .done b => P b

namespace Yields

variable {p : Parser α} {f : α → Parser β} {P Q : α → Prop} {R : β → Prop}

theorem pure {a : α} (h : P a) : Yields (pure a) P := by
  rintro s _ _ ⟨⟩
  exact h

theorem throw {e : Error} : Yields (throw e) P := by
  rintro s _ _ ⟨⟩

theorem mono (h : Yields p Q) (hP : ∀ a, Q a → P a) : Yields p P :=
  fun s a s' ha => hP a (h s a s' ha)

theorem bind (hp : Yields p P) (hf : ∀ a, P a → Yields (f a) R) : Yields (p >>= f) R := by
  intro s b s' hb
  generalize hout : out p s = x
  obtain ⟨r, t⟩ := x
  cases r with
  | error e =>
    rw [out_bind_of_error hout] at hb
    cases hb
  | ok a =>
    rw [out_bind_of_ok hout] at hb
    exact hf a (hp s a t hout) t b s' hb

theorem skip (hf : ∀ a, Yields (f a) R) : Yields (p >>= f) R :=
  bind (P := fun _ => True) (fun _ _ _ _ => trivial) fun a _ => hf a

theorem map {g : α → β} (hp : Yields p P) (hg : ∀ a, P a → R (g a)) : Yields (g <$> p) R := by
  rw [map_eq_pure_bind]
  exact hp.bind fun a ha => pure (hg a ha)

theorem recover (h : Yields p P) : Yields (recover p) fun r => ∀ a ∈ r, P a := by
  intro s r s' hr
  generalize hout : out p s = x
  obtain ⟨result, t⟩ := x
  cases result with
  | error e =>
    rw [out_recover_of_error hout] at hr
    cases hr
    intro a ha
    cases ha
  | ok a =>
    rw [out_recover_of_ok hout] at hr
    cases hr
    rintro _ ⟨⟩
    exact h s a _ hout

theorem repeated {I : α → Prop} {pass : α → Parser (Pass α β)} {init : α} (hinit : I init)
    (h : ∀ a, I a → Yields (pass a) (Pass.Yields I R)) : Yields (repeated init pass) R := by
  refine skip fun s => ?_
  generalize s.ahead.length + 1 = n
  induction n generalizing init with
  | zero => exact throw
  | succ n ih =>
    refine (h init hinit).bind fun r hr => ?_
    cases r with
    | again a => exact ih hr
    | done b => exact pure hr

theorem list {item : α → Parser α} {init : α} (hinit : P init)
    (h : ∀ a, P a → Yields (item a) P) : Yields (Parser.repeated init (listPass item)) P := by
  refine repeated hinit fun a ha => skip fun atEnd => ?_
  split
  · exact pure ha
  · exact (h a ha).bind fun a' ha' => pure ha'

theorem unlessEmpty {l : List α} {q : Parser (List α)} (hq : Yields q fun _ => False) :
    Yields (if l.isEmpty then q else Pure.pure l) (· ≠ []) := by
  split
  · exact hq.mono fun _ h => h.elim
  · rename_i h
    exact pure fun hnil => h (List.isEmpty_iff.mpr hnil)

end Yields

/-! ### Statements of a step -/

theorem yields_datasetList : Yields datasetList (· ≠ []) :=
  .skip fun _ => .skip fun _ => .unlessEmpty (.skip fun _ => .throw)

theorem yields_byList : Yields byList (· ≠ []) :=
  .skip fun _ => .skip fun _ => .unlessEmpty (.skip fun _ => .throw)

theorem yields_arraySize : Yields arraySize fun size => ∀ n, size = .fixed n → 1 ≤ n := by
  refine .skip fun star => ?_
  split
  · exact .pure fun n h => nomatch h
  · refine .skip fun t => ?_
    split
    · split
      · rename_i x _ hx
        obtain ⟨hle, hwhole⟩ := Bool.and_eq_true_iff.mp hx
        refine .pure ?_
        rintro _ ⟨⟩
        exact one_le_toCount (not_lt_of_le (of_decide_eq_true hle)) hwhole
      · exact .throw
    · exact .throw

theorem arrayVariables_ok {pos : Position} {name : String} {size : ArraySize}
    {listed vars : List String} (hsize : ∀ n, size = .fixed n → 1 ≤ n)
    (h : arrayVariables pos name size listed = .ok vars) :
    vars ≠ [] ∧ ∀ n, size = .fixed n → vars.length = n := by
  unfold arrayVariables at h
  split at h
  · rename_i n
    have hn := hsize n rfl
    have hlength : vars.length = n := by
      split at h
      · cases h
        simp
      · split at h
        · cases h
          exact Eq.symm ‹_›
        · cases h
    constructor
    · rintro rfl
      simp at hlength
      omega
    · rintro _ ⟨⟩
      exact hlength
  · split at h
    · cases h
    · cases h
      constructor
      · rintro rfl
        contradiction
      · intro n hstar
        cases hstar

abbrev YieldsStatement (p : Parser StepStatement) : Prop :=
  Yields p fun s => (Fragment.one s).WellFormed

/-- A complete statement of one of the kinds; the statements inside it are well-formed. -/
structure Made (kinds : List String) (s : StepStatement) : Prop where
  kind : s.keyword ∈ kinds
  complete : s.Complete
  inside : ∀ u ∈ (Fragment.one s).parts.tail, u.WellFormed

variable {p : Parser StepStatement} {kinds : List String}

theorem Yields.simple {s : StepStatement} (hs : s.isSimple = true) (hk : s.keyword ∈ kinds)
    (h : s.Complete) : Yields (Pure.pure s) (Made kinds) := by
  refine .pure ⟨hk, h, ?_⟩
  rw [Fragment.parts_simple hs]
  exact List.forall_mem_nil _

theorem yields_assignment : Yields assignment (Made ["assignment"]) :=
  .skip fun _ => .skip fun _ => .skip fun _ => .skip fun _ => .simple rfl (.head _) trivial

theorem yields_elementAssignment : Yields elementAssignment (Made ["assignment"]) :=
  .skip fun _ => .skip fun _ => .skip fun _ => .skip fun _ => .skip fun _ =>
    .simple rfl (.head _) trivial

theorem Yields.liftExcept {r : Except Error α} {P : α → Prop} (h : ∀ a, r = .ok a → P a) :
    Yields (arrayStatement.liftExcept r) P := by
  cases r with
  | error e => exact .throw
  | ok a => exact .pure (h a rfl)

theorem yields_arrayStatement : Yields arrayStatement (Made ["ARRAY"]) := by
  refine .skip fun t => .skip fun name => .skip fun opening => ?_
  split
  · exact .skip fun _ => .throw
  · refine yields_arraySize.bind fun size hsize => .skip fun _ => .skip fun kind => ?_
    refine .skip fun listed => .bind (.liftExcept fun vars => arrayVariables_ok hsize)
      fun vars hvars => .skip fun _ => ?_
    exact .simple rfl (.head _) hvars

theorem yields_retainStatement : Yields retainStatement (Made ["RETAIN"]) :=
  .skip fun _ => .skip fun _ => .skip fun _ => .simple rfl (.head _) trivial

theorem yields_lengthItem {read : List LengthItem × List String}
    (h : ∀ item ∈ read.1, 1 ≤ item.length) :
    Yields (lengthItem read) fun read => ∀ item ∈ read.1, 1 ≤ item.length := by
  refine .skip fun character => .skip fun t => ?_
  split
  · refine .skip fun u => ?_
    split
    · exact .throw
    · split
      · exact .throw
      · rename_i x _ _ hx
        obtain ⟨hone, hwhole⟩ := Bool.or_eq_false_iff.mp (Bool.eq_false_of_not_eq_true hx)
        have hlength : 1 ≤ Number.toCount x :=
          one_le_toCount (of_decide_eq_false hone) (by simpa using hwhole)
        refine .pure (List.forall_mem_append.mpr ⟨h, ?_⟩)
        rintro item hitem
        obtain ⟨name, -, rfl⟩ := List.mem_map.mp hitem
        exact hlength
  · exact .skip fun _ => .pure h

theorem yields_lengthStatement : Yields lengthStatement (Made ["LENGTH"]) := by
  rw [lengthStatement_eq]
  refine .skip fun _ =>
    .bind (.list (List.forall_mem_nil _) fun read => yields_lengthItem) fun read hread => ?_
  obtain ⟨items, pending⟩ := read
  dsimp only
  split
  · exact .skip fun _ => .simple rfl (.head _) hread
  · exact .skip fun _ => .throw

theorem yields_inputStatement : Yields inputStatement (Made ["INPUT"]) :=
  .skip fun _ => .skip fun _ => .skip fun _ => .simple rfl (.head _) trivial

theorem yields_dataLinesStatement : Yields dataLinesStatement (Made ["DATALINES"]) := by
  refine .skip fun _ => .skip fun _ => .skip fun t => ?_
  split
  · exact .skip fun _ => .simple rfl (.head _) trivial
  · exact .throw

theorem yields_alternative (hp : YieldsStatement p) (n : Nat) :
    Yields (alternative p n) fun o => (Fragment.others o).WellFormed := by
  induction n with
  | zero => exact .throw
  | succ n ih =>
    refine .skip fun isElseIf => ?_
    split
    · refine .skip fun condition => .skip fun _ => hp.bind fun s hs => ih.bind fun o ho => ?_
      exact .pure (Fragment.wellFormed_elseIf.mpr ⟨hs, ho⟩)
    · refine .skip fun isElse => ?_
      split
      · exact hp.bind fun s hs => .pure (Fragment.wellFormed_otherwise.mpr hs)
      · exact .pure Fragment.wellFormed_none

theorem yields_ifStatement (hp : YieldsStatement p) :
    Yields (ifStatement p) (Made ["IF", "IF-THEN"]) := by
  refine .skip fun _ => .skip fun condition => .skip fun isSubset => ?_
  split
  · exact .simple rfl (.head _) trivial
  · refine .skip fun _ => hp.bind fun s hs => .skip fun n => ?_
    refine (yields_alternative hp _).bind fun o ho => .pure ⟨.tail _ (.head _), trivial, ?_⟩
    rw [Fragment.parts_branch, List.tail_cons]
    exact List.forall_mem_append.mpr ⟨hs, ho⟩

theorem yields_doBody (hp : YieldsStatement p) :
    Yields (doBody p) fun body => (Fragment.all body).WellFormed := by
  rw [doBody_eq]
  refine .repeated (I := fun body => (Fragment.all body).WellFormed) Fragment.wellFormed_nil
    fun body hbody => .skip fun isEnd => ?_
  split
  · exact .skip fun _ => .pure hbody
  · refine .skip fun atEnd => .skip fun atBoundary => ?_
    split
    · exact .skip fun _ => .throw
    · refine .skip fun isNull => ?_
      split
      · exact .pure hbody
      · refine hp.recover.bind fun r hr => ?_
        cases r with
        | none => exact .pure hbody
        | some s => exact .pure (by simpa [Pass.Yields, hbody] using hr s rfl)

theorem made_loop {s : StepStatement} {body : List StepStatement} (hk : s.keyword = "DO")
    (hs : s.Complete) (hparts : (Fragment.one s).parts = s :: (Fragment.all body).parts)
    (h : (Fragment.all body).WellFormed) : Made ["DO"] s := by
  refine ⟨List.mem_singleton.mpr hk, hs, ?_⟩
  rw [hparts]
  exact h

theorem yields_conditionLoop (hp : YieldsStatement p) (test : Expression → LoopTest) :
    Yields (conditionLoop p test) (Made ["DO"]) := by
  refine .skip fun _ => .skip fun _ => .skip fun _ => .skip fun _ => .skip fun _ => ?_
  exact (yields_doBody hp).map fun body => made_loop rfl trivial (Fragment.parts_loop ..)

theorem yields_rangeLoop (hp : YieldsStatement p) : Yields (rangeLoop p) (Made ["DO"]) := by
  refine .skip fun index => .skip fun _ => .skip fun first => .skip fun _ => .skip fun last =>
    .skip fun increment => ?_
  have hbody {increment : Option Expression} : Yields (do
      expectSemicolon
      return .iterate index first last increment (← doBody p)) (Made ["DO"]) :=
    .skip fun _ => (yields_doBody hp).map fun body =>
      made_loop rfl trivial (Fragment.parts_iterate ..)
  split
  · exact .skip fun _ => hbody
  · exact .skip fun _ => hbody

theorem yields_doStatement (hp : YieldsStatement p) : Yields (doStatement p) (Made ["DO"]) := by
  refine .skip fun _ => .skip fun isGroup => ?_
  split
  · exact (yields_doBody hp).map fun body => made_loop rfl trivial (Fragment.parts_block ..)
  · refine .skip fun t => ?_
    split
    · exact yields_conditionLoop hp _
    · exact yields_conditionLoop hp _
    · exact yields_rangeLoop hp

/-- A statement that is told apart by its first token is of a kind that the token opens. -/
theorem made_statementBody (hp : YieldsStatement p) {state state' : State} {s : StepStatement}
    (h : out (statementBody p) state = (.ok s, state')) : Made state.next.opens s := by
  have hmade {kinds : List String} {q : Parser StepStatement}
      (hout : out q state = (.ok s, state')) (hq : Yields q (Made kinds)) (before : List String) :
      Made (before ++ kinds) s :=
    have hs := hq state s state' hout
    ⟨List.mem_append_right _ hs.kind, hs.complete, hs.inside⟩
  unfold statementBody at h
  rw [out_bind_of_ok (out_peek state)] at h
  unfold Token.opens
  split at h <;> rename_i hkind <;> simp only [hkind]
  · exact hmade h (.skip fun _ => .pure (made_loop rfl trivial (Fragment.parts_block [])
      Fragment.wellFormed_nil)) _
  · exact hmade h (.skip fun _ => yields_datasetList.bind fun l hl => .simple rfl (.head _) hl) _
  · exact hmade h (.skip fun _ => yields_datasetList.bind fun l hl => .simple rfl (.head _) hl) _
  · exact hmade h (.skip fun _ => yields_byList.bind fun l hl => .simple rfl (.head _) hl) _
  · exact hmade h (yields_ifStatement hp) _
  · exact hmade h (yields_doStatement hp) _
  · exact hmade h yields_arrayStatement _
  · exact hmade h (.skip fun _ => .skip fun _ => .simple rfl (.head _) trivial) _
  · exact hmade h (.skip fun _ => .skip fun _ => .simple rfl (.head _) trivial) _
  · exact hmade h yields_retainStatement _
  · exact hmade h yields_lengthStatement _
  · exact hmade h yields_inputStatement _
  · exact hmade h yields_dataLinesStatement _
  · exact hmade h (.skip fun _ => .skip fun _ => .simple rfl (.head _) trivial) _
  · exact hmade h (.skip fun _ => .skip fun _ => .simple rfl (.head _) trivial) _
  · exact hmade h (.skip fun _ => .skip fun _ => .simple rfl (.head _) trivial) _
  · cases h
  · cases h

theorem out_nextIsSubscript (name : String) (state : State) :
    ∃ b, out (nextIsSubscript name) state = (.ok b, state) := by
  unfold nextIsSubscript
  rw [out_bind_of_ok (out_peekNext state)]
  split
  · exact ⟨true, rfl⟩
  · exact ⟨true, rfl⟩
  · exact ⟨_, out_isArray name state⟩
  · exact ⟨false, rfl⟩

/-- A statement is of a kind that its first token opens. -/
theorem made_statementUpTo {depth : Nat} (hp : YieldsStatement (statementUpTo depth))
    {state state' : State} {s : StepStatement}
    (h : out (statementUpTo (depth + 1)) state = (.ok s, state')) : Made state.next.opens s := by
  have hassigned {name : String} {q : Parser StepStatement} (hname : state.next.name? = some name)
      (hq : Yields q (Made ["assignment"])) (hout : out q state = (.ok s, state')) :
      Made state.next.opens s := by
    have hs := hq state s state' hout
    refine ⟨List.mem_append_left _ ?_, hs.complete, hs.inside⟩
    rw [hname]
    exact hs.kind
  unfold statementUpTo at h
  rw [out_bind_of_ok (out_peek state)] at h
  split at h
  · rename_i name hname
    rw [out_bind_of_ok (out_nextIsAssign state)] at h
    split at h
    · exact hassigned hname yields_assignment h
    · obtain ⟨isSubscript, hsub⟩ := out_nextIsSubscript name state
      rw [out_bind_of_ok hsub] at h
      split at h
      · exact hassigned hname yields_elementAssignment h
      · exact made_statementBody hp h
  · exact made_statementBody hp h

theorem yields_statementUpTo (depth : Nat) : YieldsStatement (statementUpTo depth) := by
  induction depth with
  | zero => exact .throw
  | succ depth ih =>
    intro state s state' h
    have hs := made_statementUpTo ih h
    rw [Fragment.WellFormed, Fragment.parts_eq_cons, List.forall_mem_cons]
    exact ⟨⟨hs.complete, depth + 1, state, state', h, hs.kind⟩, hs.inside⟩

theorem yields_stepStatement : YieldsStatement stepStatement :=
  .skip fun _ => yields_statementUpTo _

/-! ### Settings and procedures -/

abbrev YieldsStatements (p : Parser (List Statement)) : Prop :=
  Yields p fun statements => ∀ s ∈ statements, s.WellFormed

theorem Yields.single {s : Statement} (h : s.WellFormed) : YieldsStatements (Pure.pure [s]) :=
  .pure (List.forall_mem_singleton.mpr h)

theorem Yields.behind {settings : List Statement} {s : Statement}
    (hsettings : ∀ s ∈ settings, s.WellFormed) (h : s.WellFormed) :
    YieldsStatements (Pure.pure (settings ++ [s])) :=
  .pure (List.forall_mem_append.mpr ⟨hsettings, List.forall_mem_singleton.mpr h⟩)

theorem yields_optionsStatement : Yields optionsStatement Statement.WellFormed :=
  .skip fun _ => .skip fun _ => .skip fun _ => .pure trivial

theorem yields_libnameStatement : Yields libnameStatement Statement.WellFormed := by
  refine .skip fun _ => .skip fun libref => .skip fun t => ?_
  split
  · refine .skip fun _ => .skip fun engine => .skip fun path => ?_
    split
    · exact .skip fun _ => .skip fun _ => .pure trivial
    · exact .throw
  · refine .skip fun engine => .skip fun path => ?_
    split
    · exact .skip fun _ => .skip fun _ => .pure trivial
    · exact .throw

theorem yields_titleStatement : Yields titleStatement Statement.WellFormed := by
  refine .skip fun _ => .skip fun t => ?_
  split
  · exact .skip fun _ => .skip fun text => .skip fun _ => .pure trivial
  · exact .skip fun text => .skip fun _ => .pure trivial

theorem yields_macroLetStatement : Yields macroLetStatement Statement.WellFormed :=
  .skip fun _ => .skip fun _ => .skip fun _ => .skip fun _ => .skip fun _ => .pure trivial

theorem yields_setting : Yields setting? fun r => ∀ s ∈ r, s.WellFormed := by
  have hsome {q : Parser Statement} (hq : Yields q Statement.WellFormed) :
      Yields (some <$> q) fun r => ∀ s ∈ r, s.WellFormed := by
    refine hq.map fun s hs => ?_
    rintro _ ⟨⟩
    exact hs
  have hnone : Yields (Pure.pure none) fun r => ∀ s ∈ r, Statement.WellFormed s :=
    .pure fun s hs => nomatch hs
  refine .skip fun isAssign => ?_
  split
  · exact hnone
  · refine .skip fun t => ?_
    split
    · exact hsome yields_optionsStatement
    · exact hsome yields_libnameStatement
    · exact hsome yields_titleStatement
    · exact hsome yields_macroLetStatement
    · exact .throw
    · exact hnone

section Procedures

variable {I : α → Prop}

theorem yields_procedureOptions {init : α} {option : α → Token → Bool → Parser α} (hinit : I init)
    (h : ∀ a t assigned, I a → Yields (option a t assigned) I) :
    Yields (procedureOptions init option) I := by
  rw [procedureOptions_eq]
  refine .bind (.list hinit fun a ha => ?_) fun a ha => .skip fun _ => .pure ha
  exact .skip fun t => .skip fun assigned => h a t assigned ha

/-- The statements of a procedure keep what each of them keeps, also if one is malformed. -/
theorem yields_procedureBody {init : α} {statement : α → Parser α} (hinit : I init)
    (h : ∀ a, I a → Yields (statement a) I) :
    Yields (procedureBody init statement) fun r => I r.1 ∧ ∀ s ∈ r.2, s.WellFormed := by
  rw [procedureBody_eq]
  refine .bind (P := fun r => I r.1 ∧ ∀ s ∈ r.2, s.WellFormed) ?_
    fun r hr => .skip fun _ => .pure hr
  refine .repeated (I := fun r => I r.1 ∧ ∀ s ∈ r.2, s.WellFormed)
    ⟨hinit, List.forall_mem_nil _⟩ fun read hread => ?_
  have hstatement : Yields (procedureStatement statement read)
      fun r => I r.1 ∧ ∀ s ∈ r.2, s.WellFormed := by
    refine yields_setting.bind fun setting hsetting => ?_
    cases setting with
    | none => exact (h read.1 hread.1).bind fun a ha => .pure ⟨ha, hread.2⟩
    | some s =>
      refine .pure ⟨hread.1, List.forall_mem_append.mpr ⟨hread.2, ?_⟩⟩
      exact List.forall_mem_singleton.mpr (hsetting s rfl)
  refine .skip fun atEnd => .skip fun atBoundary => ?_
  split
  · exact .pure hread
  · refine .skip fun isNull => ?_
    split
    · exact .pure hread
    · refine hstatement.recover.bind fun r hr => ?_
      cases r with
      | none => exact .pure hread
      | some r => exact .pure (hr r rfl)

theorem yields_settings {init : α} {statement : α → Parser α} :
    Yields (procedureBody init statement) fun r => ∀ s ∈ r.2, s.WellFormed :=
  (yields_procedureBody (I := fun _ => True) trivial fun _ _ _ _ _ _ => trivial).mono
    fun _ h => h.2

end Procedures

theorem yields_sortProcedure : YieldsStatements sortProcedure := by
  rw [sortProcedure_eq]
  refine .skip fun t => .skip fun request => yields_settings.bind fun r hr => ?_
  obtain ⟨request, settings⟩ := r
  dsimp only
  split
  · exact .skip fun _ => .pure hr
  · rename_i hkeys
    exact .behind hr fun hnil => hkeys (List.isEmpty_iff.mpr hnil)

/-- A statistic of a summary that is kept has the names read behind it. -/
theorem yields_meansItem {read : Option DatasetRef × List (Statistic × List String)}
    (h : ∀ column ∈ read.2, column.2 ≠ []) :
    Yields (meansItem read) fun read => ∀ column ∈ read.2, column.2 ≠ [] := by
  refine .skip fun t => .skip fun assigned => ?_
  split
  · exact .skip fun out => .pure h
  · split
    · exact .throw
    · refine .skip fun _ => .skip fun names => ?_
      split
      · exact .skip fun _ => .throw
      · rename_i hnames
        refine .pure (List.forall_mem_append.mpr ⟨h, List.forall_mem_singleton.mpr ?_⟩)
        exact fun hnil => hnames (List.isEmpty_iff.mpr hnil)

theorem yields_meansOutput : Yields meansOutput MeansOutput.WellFormed := by
  rw [meansOutput_eq]
  refine .bind (.list (List.forall_mem_nil _) fun _ => yields_meansItem) fun read hread => ?_
  obtain ⟨out, columns⟩ := read
  refine .skip fun t => .skip fun _ => ?_
  cases out with
  | none => exact .throw
  | some out => exact .pure hread

theorem yields_meansOption {request : MeansRequest} (t : Token) (assigned : Bool)
    (h : request.WellFormed) : Yields (meansOption request t assigned) MeansRequest.WellFormed := by
  unfold meansOption
  split
  · exact .skip fun data => .pure ⟨h.nodup, h.output⟩
  · split
    · exact .throw
    · split
      · exact .pure h
      · rename_i statistic _ hnew
        refine .pure ⟨?_, h.output⟩
        rw [← List.concat_eq_append]
        exact h.nodup.concat (by simpa using hnew)

theorem yields_meansStatement {request : MeansRequest} (h : request.WellFormed) :
    Yields (meansStatement request) MeansRequest.WellFormed := by
  refine .skip fun t => ?_
  split
  · exact .skip fun _ => .skip fun vars => .pure ⟨h.nodup, h.output⟩
  · refine .skip fun _ => yields_meansOutput.bind fun output houtput => .pure ⟨h.nodup, ?_⟩
    rintro _ ⟨⟩
    exact houtput
  · exact .skip fun _ => .throw

theorem yields_meansProcedure : YieldsStatements meansProcedure := by
  have hempty : ({} : MeansRequest).WellFormed := ⟨List.nodup_nil, fun _ h => nomatch h⟩
  rw [meansProcedure_eq]
  refine .skip fun t => (yields_procedureOptions hempty fun _ => yields_meansOption).bind
    fun request hrequest => ?_
  refine (yields_procedureBody hrequest fun _ => yields_meansStatement).bind fun r hr => ?_
  obtain ⟨request, settings⟩ := r
  dsimp only
  split
  · exact .skip fun _ => .pure hr.2
  · rename_i hvars
    exact .behind hr.2 ⟨fun hnil => hvars (List.isEmpty_iff.mpr hnil), hr.1⟩

theorem yields_printProcedure : YieldsStatements printProcedure := by
  rw [printProcedure_eq]
  exact .skip fun request => yields_settings.bind fun r hr => .behind hr trivial

theorem yields_freqProcedure : YieldsStatements freqProcedure := by
  rw [freqProcedure_eq]
  exact .skip fun request => yields_settings.bind fun r hr => .behind hr trivial

theorem yields_procedure : YieldsStatements procedure := by
  refine .skip fun _ => .skip fun t => ?_
  split
  · exact yields_sortProcedure
  · exact yields_meansProcedure
  · exact yields_printProcedure
  · exact yields_freqProcedure
  · exact .skip fun _ => .single trivial
  · split
    · exact .throw
    · exact .skip fun _ => .skip fun _ => .single trivial

/-! ### Steps and programs -/

theorem yields_stepBody : Yields stepBody fun r =>
    (∀ s ∈ r.1, s.WellFormed) ∧ (Fragment.all r.2).WellFormed := by
  rw [stepBody_eq]
  refine .repeated (I := fun r => (∀ s ∈ r.1, s.WellFormed) ∧ (Fragment.all r.2).WellFormed)
    ⟨List.forall_mem_nil _, Fragment.wellFormed_nil⟩ fun read hread => ?_
  refine .skip fun atEnd => .skip fun atBoundary => ?_
  split
  · exact .pure hread
  · refine yields_setting.recover.bind fun r hr => ?_
    split
    · exact .pure hread
    · rename_i s
      refine .pure ⟨List.forall_mem_append.mpr ⟨hread.1, ?_⟩, hread.2⟩
      exact List.forall_mem_singleton.mpr (hr _ rfl s rfl)
    · refine .skip fun isNull => ?_
      split
      · exact .pure hread
      · refine yields_stepStatement.recover.bind fun r hr => ?_
        cases r with
        | none => exact .pure hread
        | some s => exact .pure ⟨hread.1, by simpa [hread.2] using hr s rfl⟩

theorem yields_dataStep : YieldsStatements dataStep := by
  refine .skip fun _ => .skip fun outputs => .skip fun _ => .skip fun _ =>
    yields_stepBody.bind fun r hr => .skip fun _ => ?_
  refine .behind hr.1 ⟨?_, hr.2⟩
  split
  · exact List.cons_ne_nil _ _
  · rename_i houtputs
    rintro rfl
    exact houtputs rfl

theorem yields_programStatement : YieldsStatements programStatement := by
  refine .skip fun assigned => .skip fun t => ?_
  split
  · exact .skip fun _ => .pure (List.forall_mem_nil _)
  · exact yields_dataStep
  · exact yields_procedure
  · exact .skip fun _ => .skip fun _ => .single trivial
  · exact .skip fun _ => .skip fun _ => .single trivial
  · refine yields_setting.bind fun r hr => ?_
    cases r with
    | some s => exact .single (hr s rfl)
    | none => exact yields_stepStatement.bind fun s hs => .single hs

theorem yields_program : YieldsStatements program := by
  rw [program_eq]
  refine .repeated (I := fun statements => ∀ s ∈ statements, s.WellFormed)
    (List.forall_mem_nil Statement.WellFormed) fun statements hstatements => .skip fun atEnd => ?_
  split
  · exact .pure hstatements
  · refine yields_programStatement.recover.bind fun r hr => ?_
    refine .pure (List.forall_mem_append.mpr ⟨hstatements, ?_⟩)
    cases r with
    | none => exact List.forall_mem_nil _
    | some more => exact hr more rfl

end Parser

theorem StepStatement.WellFormed.keyword_mem {s : StepStatement} (h : s.WellFormed) :
    s.keyword ∈ stepKeywords := by
  obtain ⟨depth, state, state', -, hk⟩ := h.parsed
  exact state.next.opens_subset hk

/-- Whatever the tokens are, the statements of the program parsed from them are well-formed. The
body of a DATA step has no statements at any depth but those of DATA steps, so none of them is
refused when the step runs. -/
theorem Program.ofTokens_wellFormed (tokens : List Token) :
    (∀ s ∈ (Program.ofTokens tokens).statements, s.WellFormed) ∧
    ∀ outputs body, .dataStep outputs body ∈ (Program.ofTokens tokens).statements →
      (∀ s ∈ bodyParts body, s.keyword ∈ stepKeywords) ∧
      ∀ setting lines outcome, DataStep.runStep setting body = (lines, .ok outcome) →
        ∀ description, .unsupportedStatement description ∉ outcome.errors := by
  have hparsed : ∀ s ∈ (Program.ofTokens tokens).statements, s.WellFormed := by
    have hout := (Program.ofTokensWith_out [] tokens).1
    exact Parser.yields_program _ _ _ (Prod.ext hout rfl)
  refine ⟨hparsed, fun outputs body hstep => ⟨fun s hs => ?_, ?_⟩⟩
  · obtain ⟨-, hbody⟩ := hparsed _ hstep
    exact (hbody s hs).keyword_mem
  · intro setting lines outcome hrun description hmem
    exact DataStep.isFault_of_runStep hrun hmem

end StepLang
