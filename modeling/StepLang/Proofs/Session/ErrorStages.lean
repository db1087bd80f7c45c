import StepLang.Proofs.DataStep.Declaration
import StepLang.Proofs.DataStep.Faults
import StepLang.Proofs.Parser.Diagnostics
import StepLang.Proofs.Session.Failure
import StepLang.Proofs.Token.NumberText

/-! # Errors and their stages

Text that is no token stops a program before it is parsed, and what is malformed is reported by the
parser. Whatever the statements are, running them fails only with errors of execution, storage and
configuration.
-/

namespace StepLang

open DataStep (Setting Plan)

variable {α β : Type}

def Error.IsRuntime (e : Error) : Prop :=
  e.stage = .execution ∨ e.stage = .storage ∨ e.stage = .configuration

namespace Error

theorem isRuntime_of_execution {e : Error} (h : e.stage = .execution) : e.IsRuntime := .inl h

theorem isRuntime_of_storage {e : Error} (h : e.stage = .storage) : e.IsRuntime := .inr (.inl h)

theorem isRuntime_of_configuration {e : Error} (h : e.stage = .configuration) : e.IsRuntime :=
  .inr (.inr h)

theorem IsFault.isRuntime {e : Error} (h : e.IsFault) : e.IsRuntime := by
  cases e with
  | undefinedFunction | invalidArguments | undefinedArray | subscriptOutOfRange | zeroIncrement
  | invalidBounds | tooManyIterations => exact isRuntime_of_execution rfl
  | _ => cases h

end Error

/-- An error of the result is one of running a program. -/
def OnlyRuntime (r : Except Error α) : Prop := ∀ e, r = .error e → e.IsRuntime

namespace OnlyRuntime

theorem ok {a : α} : OnlyRuntime (.ok a) := by
  rintro _ ⟨⟩

theorem error {e : Error} (h : e.IsRuntime) : OnlyRuntime (.error e : Except Error α) := by
  rintro _ ⟨⟩
  exact h

theorem bind {r : Except Error α} {k : α → Except Error β} (hr : OnlyRuntime r)
    (hk : ∀ a, OnlyRuntime (k a)) : OnlyRuntime (r >>= k) := by
  cases r with
  | error e => exact .error (hr e rfl)
  | ok a => exact hk a

theorem of_onlyFaults {r : Except Error α} (h : OnlyFaults r) : OnlyRuntime r :=
  fun e he => (h e he).isRuntime

theorem foldlM {f : β → α → Except Error β} (hf : ∀ b a, OnlyRuntime (f b a)) (as : List α)
    (b : β) : OnlyRuntime (as.foldlM f b) := by
  induction as generalizing b with
  | nil => exact .ok
  | cons a as ih =>
    rw [List.foldlM_cons]
    exact (hf b a).bind ih

end OnlyRuntime

/-! ### Storage -/

section Storage

variable (files : FileTree) (path : String)

theorem onlyRuntime_read : OnlyRuntime (files.read path) := by
  unfold FileTree.read
  split
  · exact .ok
  · exact .error (Error.isRuntime_of_storage rfl)
  · exact .error (Error.isRuntime_of_storage rfl)

theorem onlyRuntime_write (content : ByteArray) : OnlyRuntime (files.write path content) := by
  unfold FileTree.write
  split
  · exact .error (Error.isRuntime_of_storage rfl)
  · split
    · exact .error (Error.isRuntime_of_storage rfl)
    · split
      · exact .error (Error.isRuntime_of_storage rfl)
      · exact .ok

theorem onlyRuntime_ofJson (text : String) : OnlyRuntime (Storage.ofJson text) := by
  unfold Storage.ofJson
  split
  · exact .ok
  · exact .error (Error.isRuntime_of_storage rfl)

theorem onlyRuntime_ofCsv (name : String) (bytes : List UInt8) :
    OnlyRuntime (Storage.ofCsv name bytes) := by
  unfold Storage.ofCsv
  split
  · exact .ok
  · exact .error (Error.isRuntime_of_storage rfl)

theorem onlyRuntime_load (engine : Engine) : OnlyRuntime (engine.load files path) := by
  refine (onlyRuntime_read files path).bind fun content => ?_
  unfold Engine.decode
  split
  · split
    · exact .error (Error.isRuntime_of_storage rfl)
    · exact (onlyRuntime_ofJson _).bind fun d => .ok
  · exact onlyRuntime_ofCsv _ _

theorem onlyRuntime_loadFrom (l : Library) (name : String) :
    OnlyRuntime (l.load? files name) := by
  unfold Library.load?
  split
  · exact .ok
  · split
    · exact .ok
    · split
      · exact (onlyRuntime_load files _ l.engine).bind fun d => .ok
      · exact .ok

end Storage

namespace Session

variable (s : Session)

theorem onlyRuntime_library (libref : Option String) : OnlyRuntime (s.library libref) := by
  unfold library
  dsimp only
  split
  · exact .ok
  · exact .error (Error.isRuntime_of_execution rfl)

theorem onlyRuntime_dataset (r : DatasetRef) : OnlyRuntime (s.dataset r) := by
  have hfound : OnlyRuntime (s.dataset? r) :=
    (s.onlyRuntime_library _).bind fun l => onlyRuntime_loadFrom s.files l r.name
  refine hfound.bind fun d => ?_
  cases d with
  | some d => exact .ok
  | none => exact .error (Error.isRuntime_of_execution rfl)

theorem onlyRuntime_evaluate (value : String → Value) (e : Expression) :
    OnlyRuntime (evaluate { s.scope with value } e) := by
  refine .of_onlyFaults ((onlyFaults_evaluate fun array i => ?_).1 e)
  exact .error (e := .undefinedArray array) trivial

end Session

/-! ### DATA steps -/

namespace DataStep

variable {setting : Setting} (hdataset : ∀ r, OnlyRuntime (setting.dataset r))

theorem onlyRuntime_checkOutputs (names : List String) :
    OnlyRuntime (Plan.checkOutputs setting names) := by
  induction names with
  | nil => exact .ok
  | cons name names ih =>
    unfold Plan.checkOutputs
    split
    · exact ih
    · exact .error (Error.isRuntime_of_execution rfl)

theorem onlyRuntime_rows (p : Plan) : OnlyRuntime p.rows.2 := by
  unfold Plan.rows
  split
  · split
    · exact .error (Error.isRuntime_of_execution rfl)
    · exact .ok
  · split
    · exact .ok
    · split
      · split
        · exact .ok
        · exact .error (Error.isRuntime_of_execution rfl)
      · split
        · exact .ok
        · exact .ok

include hdataset

theorem onlyRuntime_readInputs (refs : List DatasetRef) (p : Plan) :
    OnlyRuntime (p.readInputs setting refs) := by
  induction refs generalizing p with
  | nil => exact .ok
  | cons r refs ih => exact (hdataset r).bind fun d => ih _

theorem onlyRuntime_declareOwn (p : Plan) (s : StepStatement) :
    OnlyRuntime (p.declareOwn setting s) := by
  cases s with
  | set refs =>
    simp only [Plan.declareOwn, Plan.declare]
    exact (onlyRuntime_readInputs hdataset refs p).bind fun p => .ok
  | merge refs =>
    simp only [Plan.declareOwn, Plan.declare]
    exact (onlyRuntime_readInputs hdataset refs p).bind fun p => .ok
  | output names =>
    simp only [Plan.declareOwn, Plan.declare]
    exact (onlyRuntime_checkOutputs names).bind fun _ => .ok
  | assign target value =>
    cases target <;> simp only [Plan.declareOwn, Plan.declare] <;> exact .ok
  | _ =>
    simp only [Plan.declareOwn, Plan.declare]
    exact .ok

theorem onlyRuntime_ofBody (body : List StepStatement) :
    OnlyRuntime (Plan.ofBody setting body) := by
  have hdeclare : OnlyRuntime (Plan.declareAll setting {} body) := by
    have hparts := Fragment.declare_eq_foldlM setting {} (.all body)
    rw [Fragment.declare] at hparts
    rw [hparts]
    exact .foldlM (onlyRuntime_declareOwn hdataset) _ _
  exact hdeclare.bind fun plan => .ok

/-- A DATA step fails only at run time, before or in its observations. -/
theorem onlyRuntime_runStep (body : List StepStatement) :
    OnlyRuntime (runStep setting body).2 := by
  have hcompile : OnlyRuntime (compile setting body).2 := by
    have hplan := onlyRuntime_ofBody hdataset body
    unfold compile
    generalize Plan.ofBody setting body = planned at hplan
    rcases planned with e | ⟨plan, notes⟩
    · exact .error (hplan e rfl)
    · have hrows := onlyRuntime_rows plan
      dsimp only
      generalize plan.rows = read at hrows
      rcases read with ⟨more, e | rows⟩
      · exact .error (hrows e rfl)
      · exact .ok
  unfold runStep
  generalize compile setting body = compiled at hcompile
  rcases compiled with ⟨notes, e | ⟨plan, rows⟩⟩
  · exact .error (hcompile e rfl)
  · exact .ok

end DataStep

/-! ### Statements -/

namespace Action

/-- Whatever the session is, the action fails with errors of running a program only. -/
def FailsAtRun (m : Action α) : Prop := ∀ s, OnlyRuntime (m.out s).1

namespace FailsAtRun

theorem pure {a : α} : FailsAtRun (Pure.pure a : Action α) := fun _ => .ok

theorem throw {e : Error} (h : e.IsRuntime) : FailsAtRun (throw e : Action α) := fun _ => .error h

theorem modify {f : Session → Session} : FailsAtRun (modify f) := fun _ => .ok

theorem ofExcept {r : Except Error α} (h : OnlyRuntime r) : FailsAtRun (ofExcept r) := by
  intro s
  rw [out_ofExcept]
  exact h

theorem bind {m : Action α} {k : α → Action β} (hm : FailsAtRun m) (hk : ∀ a, FailsAtRun (k a)) :
    FailsAtRun (m >>= k) := by
  intro s
  have hs := hm s
  rw [out_bind]
  generalize m.out s = x at hs
  obtain ⟨r, t⟩ := x
  cases r with
  | error e => exact .error (hs e rfl)
  | ok a => exact hk a t

theorem get {k : Session → Action β} (hk : ∀ s, FailsAtRun (k s)) : FailsAtRun (get >>= k) :=
  fun s => hk s s

theorem ite {c : Prop} [Decidable c] {m m' : Action α} (hm : FailsAtRun m)
    (hm' : FailsAtRun m') : FailsAtRun (if c then m else m') := by
  split
  · exact hm
  · exact hm'

theorem forIn {xs : List α} {f : α → β → Action (ForInStep β)} (hf : ∀ a b, FailsAtRun (f a b))
    (b : β) : FailsAtRun (ForIn.forIn xs b f) := by
  induction xs generalizing b with
  | nil => exact pure
  | cons x xs ih =>
    rw [List.forIn_cons]
    refine (hf x b).bind fun r => ?_
    cases r with
    | done b => exact pure
    | yield b => exact ih b

end FailsAtRun

theorem FailsAtRun.fail {e : Error} {k : α → Action β} (h : e.IsRuntime) :
    FailsAtRun (MonadExcept.throw e >>= k) := fun _ => .error h

theorem failsAtRun_assignLibrary (name path : String) (engine : Engine) (access : Access) :
    FailsAtRun (assignLibrary name path engine access) := by
  refine .ite (.fail (Error.isRuntime_of_configuration rfl)) ?_
  refine .ite (.fail (Error.isRuntime_of_configuration rfl)) (.get fun s => ?_)
  exact .ite (.fail (Error.isRuntime_of_execution rfl)) (.bind .modify fun _ => .modify)

theorem failsAtRun_storeDataset (r : DatasetRef) (d : Dataset) :
    FailsAtRun (storeDataset r d) := by
  have hkeep (l : Library) : FailsAtRun (do
      remember l r { d with name := r.name }
      modify fun s => { s with last := some r }) :=
    .bind .modify fun _ => .modify
  refine .get fun s => .bind (.ofExcept (s.onlyRuntime_library _)) fun l =>
    .ite (.fail (e := .readOnlyLibrary l.name) (Error.isRuntime_of_execution rfl)) ?_
  dsimp only
  split
  · exact .bind .pure fun _ => hkeep l
  · refine .get fun s => .bind (.ofExcept (onlyRuntime_write s.files _ _)) fun files => ?_
    exact .bind .modify fun _ => hkeep l

/-! ### Procedures -/

theorem failsAtRun_inputDataset (data : Option DatasetRef) : FailsAtRun (inputDataset data) := by
  refine .get fun s => ?_
  split
  · exact .bind (.ofExcept (s.onlyRuntime_dataset _)) fun d => .pure
  · exact .throw (Error.isRuntime_of_execution rfl)

theorem failsAtRun_checkColumns (r : DatasetRef) (d : Dataset) (names : List String) :
    FailsAtRun (checkColumns r d names) := by
  unfold checkColumns
  split
  · exact .throw (Error.isRuntime_of_execution rfl)
  · exact .pure

theorem failsAtRun_inputRows (condition : Option Expression) (rows : List Row) :
    FailsAtRun (inputRows condition rows) := by
  cases condition with
  | none => exact .pure
  | some c =>
    change FailsAtRun (selectRows c rows)
    induction rows with
    | nil => exact .pure
    | cons row rows ih =>
      refine .get fun s => .bind .modify fun _ => ?_
      exact .bind (.ofExcept (s.onlyRuntime_evaluate _ c)) fun v => .bind ih fun rest => .pure

theorem failsAtRun_noteSorted (request : SortRequest) (r : DatasetRef) (d : Dataset)
    (selected left : Nat) : FailsAtRun (noteSorted request r d selected left) := by
  have hmade : FailsAtRun (do
      noteRead r d.rows.length
      noteMade (request.out.getD r) left d.columns.length) :=
    .bind .modify fun _ => .modify
  have hleft : FailsAtRun (do
      if left < selected then
        note s!"{selected - left} observations with duplicate key values were deleted."
      noteRead r d.rows.length
      noteMade (request.out.getD r) left d.columns.length) :=
    .ite (.bind .modify fun _ => hmade) hmade
  exact .ite (.bind .modify fun _ => hleft) hleft

theorem failsAtRun_sort (request : SortRequest) : FailsAtRun (sort request) := by
  apply FailsAtRun.bind (failsAtRun_inputDataset _)
  rintro ⟨r, d⟩
  exact .bind (failsAtRun_checkColumns r d _) fun _ => .bind (failsAtRun_inputRows _ _) fun rows =>
    .bind (failsAtRun_noteSorted _ _ _ _ _) fun _ => failsAtRun_storeDataset _ _

theorem failsAtRun_means (request : MeansRequest) : FailsAtRun (means request) := by
  apply FailsAtRun.bind (failsAtRun_inputDataset _)
  rintro ⟨r, d⟩
  refine .bind (failsAtRun_checkColumns r d _) fun _ => .bind .modify fun _ =>
    .bind .modify fun _ => ?_
  split
  · exact .pure
  · refine .bind (.forIn ?_ _) fun _ => .bind .modify fun _ => failsAtRun_storeDataset _ _
    exact fun column _ => .ite (.bind .modify fun _ => .pure) .pure

theorem failsAtRun_print (request : PrintRequest) : FailsAtRun (print request) := by
  apply FailsAtRun.bind (failsAtRun_inputDataset _)
  rintro ⟨r, d⟩
  exact .bind (failsAtRun_checkColumns r d _) fun _ => .modify

theorem failsAtRun_freq (request : FreqRequest) : FailsAtRun (freq request) := by
  apply FailsAtRun.bind (failsAtRun_inputDataset _)
  rintro ⟨r, d⟩
  refine .bind (failsAtRun_checkColumns r d _) fun _ => .bind (.forIn ?_ _) fun _ => .pure
  exact fun table _ => .bind .modify fun _ => .ite (.bind .modify fun _ => .pure) .pure

/-! ### Statements -/

theorem failsAtRun_single (step : StepStatement) : FailsAtRun (single step) := by
  unfold single
  split
  · refine .get fun s => .bind .modify fun _ => ?_
    exact .bind (.ofExcept (s.onlyRuntime_evaluate _ _)) fun v => .modify
  · exact .throw (Error.isRuntime_of_execution rfl)
  · exact .throw (Error.isRuntime_of_execution rfl)

theorem failsAtRun_libname (libref : String) (engine : Option String) (path : String)
    (readOnly : Bool) : FailsAtRun (libname libref engine path readOnly) := by
  unfold libname
  dsimp only
  split
  · exact .get fun s => .bind .pure fun engine => failsAtRun_assignLibrary _ _ _ _
  · split
    · exact .bind .pure fun engine => failsAtRun_assignLibrary _ _ _ _
    · exact .fail (Error.isRuntime_of_execution rfl)

theorem failsAtRun_keepOutputs (outputs : List (DatasetRef × Dataset)) :
    FailsAtRun (keepOutputs outputs) := by
  induction outputs with
  | nil => exact .pure
  | cons output outputs ih =>
    have hstore : FailsAtRun (do
        storeDataset output.1 output.2
        keepOutputs outputs) :=
      .bind (failsAtRun_storeDataset _ _) fun _ => ih
    exact .bind .modify fun _ => .get fun s => .ite (.bind .modify fun _ => hstore) hstore

/-- The errors of a result are those of running a program, be it one it failed with or those it
went on behind. -/
def AllRuntime (r : Except Error (List Error)) : Prop :=
  OnlyRuntime r ∧ ∀ errors, r = .ok errors → ∀ e ∈ errors, e.IsRuntime

/-- A DATA step goes on behind the errors of its observations and reports how keeping its outputs
ended. -/
theorem allRuntime_dataStep (outputs : List DatasetRef) (body : List StepStatement) (s : Session) :
    AllRuntime ((dataStep outputs body).out s).1 := by
  have hrun : OnlyRuntime (DataStep.runStep (stepSetting s outputs) body).2 :=
    DataStep.onlyRuntime_runStep s.onlyRuntime_dataset body
  rcases hstep : DataStep.runStep (stepSetting s outputs) body with ⟨lines, e | outcome⟩
  · rw [hstep] at hrun
    rw [out_dataStep_error hstep]
    exact ⟨.error (hrun e rfl), fun _ h => nomatch h⟩
  · -- the step has run: the errors of its observations stand before that of its outputs
    have herrors : ∀ e ∈ outcome.errors, e.IsRuntime :=
      fun e he => (DataStep.isFault_of_runStep hstep he).isRuntime
    have hkept := failsAtRun_keepOutputs outcome.outputs { s with log := s.log ++ lines }
    rw [out_dataStep hstep]
    generalize (keepOutputs outcome.outputs).out _ = kept at hkept
    obtain ⟨e | _, t⟩ := kept
    · refine ⟨.ok, ?_⟩
      rintro _ ⟨⟩
      exact List.forall_mem_append.mpr ⟨herrors, List.forall_mem_singleton.mpr (hkept e rfl)⟩
    · refine ⟨.ok, ?_⟩
      rintro _ ⟨⟩
      exact herrors

theorem FailsAtRun.result {m : Action α} (hm : FailsAtRun m) (s : Session) :
    AllRuntime ((m >>= fun _ => (Pure.pure [] : Action (List Error))).out s).1 := by
  refine ⟨hm.bind (fun _ => pure) s, fun errors h e he => ?_⟩
  obtain ⟨a, t, -, hpure⟩ := out_bind_ok_iff.mp (Prod.ext h rfl)
  cases hpure
  cases he

theorem allRuntime_statement (st : Statement) (s : Session) :
    AllRuntime ((statement st).out s).1 := by
  cases st with
  | dataStep outputs body => exact allRuntime_dataStep outputs body s
  | single step => exact (failsAtRun_single step).result s
  | options settings => exact FailsAtRun.modify.result s
  | libname libref engine path readOnly => exact (failsAtRun_libname _ _ _ _).result s
  | title text => exact FailsAtRun.modify.result s
  | macroLet name value => exact FailsAtRun.modify.result s
  | sort request => exact (failsAtRun_sort request).result s
  | means request => exact (failsAtRun_means request).result s
  | print request => exact (failsAtRun_print request).result s
  | freq request => exact (failsAtRun_freq request).result s
  | sql => exact ⟨.error (Error.isRuntime_of_execution rfl), fun _ h => nomatch h⟩
  | unknownProcedure name =>
    exact ⟨.error (Error.isRuntime_of_execution rfl), fun _ h => nomatch h⟩
  | run => exact (FailsAtRun.pure (a := ())).result s

end Action

namespace Session

theorem isRuntime_of_mem_execute {s : Session} {statements : List Statement} {e : Error}
    (he : e ∈ (s.execute statements).1) : e.IsRuntime := by
  induction statements generalizing s with
  | nil => cases he
  | cons st statements ih =>
    have hst : Action.AllRuntime ((Action.statement st).run.run s).1 :=
      Action.allRuntime_statement st s
    unfold execute at he
    generalize (Action.statement st).run.run s = x at hst he
    obtain ⟨failure | errors, t⟩ := x
    · rcases List.mem_cons.mp he with rfl | he
      · exact hst.1 e rfl
      · exact ih he
    · rcases List.mem_append.mp he with he | he
      · exact hst.2 errors rfl e he
      · exact ih he

end Session

/-! ### Stages -/

/-- With a reader that takes every numeral, the scanner fails with fatal errors of its own stage. -/
theorem Token.stage_of_scanReading {read : String → Option Float}
    (hread : ∀ n : Numeral, (read n.text).isSome = true) {source : String} {e : Error}
    (h : scanReading read source = .error e) : e.stage = .lexing ∧ e.severity = .fatal := by
  obtain ⟨fault, pos, rfl⟩ := exists_lexical_of_scanReading hread h
  exact ⟨rfl, rfl⟩

theorem Token.isSome_read? (n : Numeral) : (Number.read? n.text).isSome = true := by
  rw [n.read?_text]
  rfl

theorem Token.stage_of_scan {source : String} {e : Error} (h : scan source = .error e) :
    e.stage = .lexing ∧ e.severity = .fatal := by
  rw [← scanReading_read?] at h
  exact stage_of_scanReading isSome_read? h

theorem Session.run_eq_error_iff {s : Session} {source : String} {e : Error} :
    (s.run source).1 = .error e ↔ Token.scan source = .error e := by
  unfold run
  cases Token.scan source with
  | error e' =>
    exact ⟨fun h => congrArg Except.error (Except.error.inj h),
      fun h => congrArg Except.error (Except.error.inj h)⟩
  | ok tokens => exact ⟨(fun h => nomatch h), fun h => nomatch h⟩

/-- Errors belong to their stages. A program text fails with a fatal error of the scanner, which is
never that of an invalid number: whatever `read` makes of the texts of numbers, it need only take
digits with at most one point. Every diagnostic of the parser is one of parsing, and every error of
statements that are run is one of execution, storage or configuration. -/
theorem errors_belong_to_stages {read : String → Option Float}
    (hread : ∀ n : Token.Numeral, (read n.text).isSome = true) :
    (∀ source e, Token.scanReading read source = .error e →
      (e.stage = .lexing ∧ e.severity = .fatal) ∧
        ∀ text pos, e ≠ .malformed (.invalidNumber text) pos) ∧
    Token.scanReading Number.read? = Token.scan ∧
    (∀ source e, Token.scan source = .error e → e.stage = .lexing ∧ e.severity = .fatal) ∧
    (∀ (s : Session) source e, (s.run source).1 = .error e →
      e.stage = .lexing ∧ e.severity = .fatal) ∧
    (∀ tokens, ∀ e ∈ (Program.ofTokens tokens).errors, e.stage = .parsing) ∧
    ∀ (s : Session) statements, ∀ e ∈ (s.execute statements).1,
      e.stage = .execution ∨ e.stage = .storage ∨ e.stage = .configuration := by
  refine ⟨fun source e h => ?_, Token.scanReading_read?, fun _ _ => Token.stage_of_scan,
    fun s source e h => Token.stage_of_scan (Session.run_eq_error_iff.mp h),
    fun _ _ => Program.stage_of_mem_errors, fun _ _ _ => Session.isRuntime_of_mem_execute⟩
  have hstage := Token.stage_of_scanReading hread h
  refine ⟨hstage, ?_⟩
  rintro text pos rfl
  cases hstage.1

/-- Numbers that are cut from `1.2.3` are read, an open literal is not scanned, a statement without
its expression is not parsed, and no procedure is run that is not there. -/
theorem errors_belong_to_stages_each :
    (∀ n : Token.Numeral, (Number.read? n.text).isSome = true) ∧
    (∃ e, Token.scan "x=1.2.3'" = .error e ∧ e.stage = .lexing ∧ e.severity = .fatal) ∧
    (∃ tokens, Token.scan "x=;" = .ok tokens ∧ (Program.ofTokens tokens).errors ≠ [] ∧
      ∀ e ∈ (Program.ofTokens tokens).errors, e.stage = .parsing) ∧
    ∀ s : Session, (s.execute [.sql]).1 ≠ [] ∧ ∀ e ∈ (s.execute [.sql]).1,
      e.stage = .execution ∨ e.stage = .storage ∨ e.stage = .configuration := by
  obtain ⟨hscan, hreads, -, -, hparse, hrun⟩ := errors_belong_to_stages Token.isSome_read?
  have hopen : Token.scan "x=1.2.3'" = .error (.lexical .unterminatedText ⟨1, 8⟩) := by
    decide +kernel
  refine ⟨Token.isSome_read?, ⟨_, hopen, (hscan _ _ (hreads ▸ hopen)).1⟩,
    ⟨(Token.scan "x=;").toOption.getD [], by decide +kernel, by decide +kernel, hparse _⟩,
    fun s => ⟨List.cons_ne_nil _ _, hrun s _⟩⟩

end StepLang
