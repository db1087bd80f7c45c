import Mathlib.Logic.Relation
import StepLang.Proofs.Session.Storing
import StepLang.Session.Execution

/-! # What statements change in a session

A statement changes a session step by step: it prints, assigns a library, stores a data set, or sets
an option, the title or a variable. A statement that fails has only printed, unless it is a DATA
step that has stored some of its outputs before.
-/

namespace StepLang

namespace Session

/-- The session with more in its log and its listing. -/
def Printed (s t : Session) : Prop := ∃ log listing, t = { s with log, listing }

instance : IsPreorder Session Printed where
  refl s := ⟨s.log, s.listing, rfl⟩
  trans := by
    rintro s _ _ ⟨log, listing, rfl⟩ ⟨log', listing', rfl⟩
    exact ⟨log', listing', rfl⟩

def assigned (s : Session) (name path : String) (engine : Engine) (access : Access) : Session :=
  { s with
    libraries := s.libraries.insert name
      { name := Text.upper name, path := some path, engine, access } }

inductive Change : Session → Session → Prop
  | print {s t : Session} : s.Printed t → Change s t
  | assign {s : Session} {name : String} (path : String) (engine : Engine) (access : Access) :
    isLibref name = true → Text.upper name ≠ "WORK" → Change s (s.assigned name path engine access)
  | store {s : Session} {r : DatasetRef} {d : Dataset} {l : Library} {files : FileTree} :
    s.library r.libref = .ok l → l.access ≠ .readOnly →
    l.Saves s.files r.name { d with name := r.name } files → Change s (s.keep r l d files)
  | option (s : Session) (name value : String) :
    Change s { s with options := s.options.insert name value }
  | title (s : Session) (text : Option String) : Change s { s with title := text }
  | assignVar (s : Session) (name : String) (value : Value) :
    Change s { s with vars := s.vars.insert name value }
  | assignMacro (s : Session) (name text : String) :
    Change s { s with macros := s.macros.insert name text }

def Changes : Session → Session → Prop := Relation.ReflTransGen Change

instance : IsPreorder Session Changes :=
  inferInstanceAs (IsPreorder Session (Relation.ReflTransGen Change))

theorem Change.changes {s t : Session} (h : Change s t) : s.Changes t := .single h

theorem Printed.changes {s t : Session} (h : s.Printed t) : s.Changes t := .single (.print h)

/-- What every change keeps is kept. -/
theorem Changes.keeps {P : Session → Prop} (hP : ∀ {s t}, Change s t → P s → P t) {s t : Session}
    (h : s.Changes t) (hs : P s) : P t := by
  induction h with
  | refl => exact hs
  | tail _ hchange ih => exact hP hchange ih

theorem changes_setOptions (s : Session) (settings : List (String × String)) :
    s.Changes { s with options := settings.foldl (fun o (n, v) => o.insert n v) s.options } := by
  induction settings generalizing s with
  | nil => exact refl_of Changes s
  | cons setting settings ih =>
    exact .head (.option s setting.1 setting.2)
      (ih { s with options := s.options.insert setting.1 setting.2 })

end Session

namespace Action

open Session

variable {α β : Type}

theorem out_attempt (m : Action α) (s : Session) :
    Action.out (ExceptT.mk (do return Except.ok (← m.run))) s =
      (.ok (m.out s).1, (m.out s).2) := rfl

/-- The action leaves a session in the relation to the one it starts from. -/
structure Leaves (R : Session → Session → Prop) (m : Action α) : Prop where
  out : ∀ s, R s (m.out s).2

namespace Leaves

variable {R : Session → Session → Prop}

theorem mono {R' : Session → Session → Prop} {m : Action α} (h : ∀ {s t}, R s t → R' s t)
    (hm : Leaves R m) : Leaves R' m := ⟨fun s => h (hm.out s)⟩

theorem modify {f : Session → Session} (hf : ∀ s, R s (f s)) : Leaves R (modify f) := ⟨hf⟩

theorem attempt {m : Action α} (hm : Leaves R m) :
    Leaves R (ExceptT.mk (do return Except.ok (← m.run)) : Action (Except Error α)) := ⟨hm.out⟩

variable [IsPreorder Session R]

theorem pure (a : α) : Leaves R (pure a) := ⟨refl_of R⟩

theorem throw (e : Error) : Leaves R (throw e : Action α) := ⟨refl_of R⟩

theorem fail (e : Error) (k : α → Action β) : Leaves R (MonadExcept.throw e >>= k) := ⟨refl_of R⟩

theorem get : Leaves R get := ⟨refl_of R⟩

theorem ofExcept (r : Except Error α) : Leaves R (ofExcept r) := by
  constructor
  intro s
  rw [out_ofExcept]
  exact refl_of R s

theorem bind {m : Action α} {k : α → Action β} (hm : Leaves R m) (hk : ∀ a, Leaves R (k a)) :
    Leaves R (m >>= k) := by
  constructor
  intro s
  have hm := hm.out s
  rw [out_bind]
  generalize m.out s = x at hm
  rcases x with ⟨r, t⟩
  cases r with
  | ok a => exact trans_of R hm ((hk a).out t)
  | error e => exact hm

theorem guarded {p : Prop} [Decidable p] {m : Action Unit} {k : Unit → Action β}
    (hm : Leaves R m) (hk : Leaves R (k ())) : Leaves R (if p then m >>= k else k ()) := by
  split
  · exact bind hm fun _ => hk
  · exact hk

theorem forIn {xs : List α} {f : α → β → Action (ForInStep β)} (hf : ∀ a b, Leaves R (f a b))
    (b : β) : Leaves R (ForIn.forIn xs b f) := by
  induction xs generalizing b with
  | nil => exact pure b
  | cons x xs ih =>
    rw [List.forIn_cons]
    apply (hf x b).bind
    intro r
    cases r with
    | done b => exact pure b
    | yield b => exact ih b

theorem forM {xs : List α} {f : α → Action Unit} (hf : ∀ a, Leaves R (f a)) :
    Leaves R (xs.forM f) := by
  induction xs with
  | nil => exact pure ()
  | cons x xs ih => exact (hf x).bind fun _ => ih

end Leaves

/-- The action does no more than print. -/
abbrev Prints (m : Action α) : Prop := Leaves Printed m

theorem prints_log (lines : List LogLine) : Prints (log lines) :=
  .modify fun s => ⟨_, s.listing, rfl⟩

theorem prints_note (text : String) : Prints (note text) := prints_log _

theorem prints_list (t : Table) : Prints (list t) := .modify fun s => ⟨s.log, _, rfl⟩

/-- The action makes changes, but only prints if it fails. -/
structure Atomic (m : Action α) : Prop where
  changes : ∀ s : Session, s.Changes (m.out s).2
  prints : ∀ (s : Session) (e : Error), (m.out s).1 = .error e → s.Printed (m.out s).2

namespace Atomic

theorem leaves {m : Action α} (hm : Atomic m) : Leaves Changes m := ⟨hm.changes⟩

theorem of_prints {m : Action α} (hm : Prints m) : Atomic m :=
  ⟨fun s => (hm.out s).changes, fun s _ _ => hm.out s⟩

theorem modify {f : Session → Session} (hf : ∀ s : Session, s.Changes (f s)) :
    Atomic (modify f) :=
  ⟨hf, fun _ _ h => nomatch h⟩

theorem bind {m : Action α} {k : α → Action β} (hm : Prints m) (hk : ∀ a, Atomic (k a)) :
    Atomic (m >>= k) := by
  constructor
  · exact (Leaves.bind (hm.mono Printed.changes) fun a => (hk a).leaves).out
  · intro s e he
    have hm := hm.out s
    rw [out_bind] at he ⊢
    generalize m.out s = x at hm he
    rcases x with ⟨r, t⟩
    cases r with
    | ok a => exact trans_of Printed hm ((hk a).prints t e he)
    | error e => exact hm

theorem result {m : Action α} (hm : Atomic m) (b : β) : Atomic (m >>= fun _ => pure b) := by
  constructor
  · exact (Leaves.bind hm.leaves fun _ => .pure b).out
  · intro s e he
    have hprints := hm.prints s
    rw [out_bind] at he ⊢
    generalize m.out s = x at hprints he
    rcases x with ⟨r, t⟩
    cases r with
    | ok a => cases he
    | error e => exact hprints e rfl

end Atomic

/-! ### The environment -/

/-- A library can be assigned to a directory under a name of its form, but not in the place of
`WORK`. -/
structure CanAssign (s : Session) (name path : String) : Prop where
  libref : isLibref name = true
  notWork : Text.upper name ≠ "WORK"
  directory : s.files.isDirectory path = true

section

variable {name path : String} {engine : Engine} {access : Access} {s : Session}

theorem out_assignLibrary_ok (h : CanAssign s name path) :
    (assignLibrary name path engine access).out s =
      (.ok (), { s.assigned name path engine access with
        log := s.log ++ [LogLine.mk .info ("NOTE: " ++
          (s!"Libref {Text.upper name} was successfully assigned: " ++
            s!"engine {Text.upper engine.name}, path {path}"))] }) := by
  have hname : (!isLibref name) = false := by rw [h.libref, Bool.not_true]
  have hpath : (!s.files.isDirectory path) = false := by rw [h.directory, Bool.not_true]
  unfold assignLibrary
  dsimp only
  rw [hname, if_neg Bool.false_ne_true, if_neg (by simpa using h.notWork),
    out_bind_of_ok (out_get s), hpath]
  rfl

theorem out_assignLibrary_error (h : ¬ CanAssign s name path) :
    ∃ e, (assignLibrary name path engine access).out s = (.error e, s) := by
  unfold assignLibrary
  dsimp only
  cases hname : isLibref name with
  | false => exact ⟨_, rfl⟩
  | true =>
    by_cases hwork : Text.upper name = "WORK"
    · rw [Bool.not_true, if_neg Bool.false_ne_true, if_pos (beq_iff_eq.mpr hwork)]
      exact ⟨_, rfl⟩
    · rw [Bool.not_true, if_neg Bool.false_ne_true, if_neg (by simpa using hwork),
        out_bind_of_ok (out_get s)]
      cases hpath : s.files.isDirectory path with
      | false => exact ⟨_, rfl⟩
      | true => exact absurd ⟨hname, hwork, hpath⟩ h

end

theorem atomic_assignLibrary (name path : String) (engine : Engine) (access : Access) :
    Atomic (assignLibrary name path engine access) := by
  constructor
  · intro s
    by_cases h : CanAssign s name path
    · rw [out_assignLibrary_ok h]
      apply (Change.assign path engine access h.libref h.notWork).changes.tail
      exact .print ⟨_, s.listing, rfl⟩
    · obtain ⟨e, he⟩ := out_assignLibrary_error h
      rw [he]
      exact refl_of Changes s
  · intro s e he
    by_cases h : CanAssign s name path
    · rw [out_assignLibrary_ok h] at he
      cases he
    · obtain ⟨e', he'⟩ := out_assignLibrary_error h
      rw [he']
      exact refl_of Printed s

/-- A data set that cannot be stored leaves the session as it was. -/
theorem eq_of_storeDataset_error {r : DatasetRef} {d : Dataset} {s s' : Session} {e : Error}
    (h : (storeDataset r d).out s = (.error e, s')) : s' = s := by
  unfold storeDataset at h
  rw [out_bind_of_ok (out_get s), out_bind, out_ofExcept] at h
  cases hl : s.library r.libref with
  | error e => simp_all
  | ok l =>
    rw [hl] at h
    dsimp only at h
    split at h
    · cases h
      rfl
    · split at h
      · cases h
      · rw [out_bind_of_ok (out_get s), out_bind, out_ofExcept] at h
        generalize l.engine.save s.files _ _ = saved at h
        cases saved with
        | ok files => cases h
        | error e =>
          cases h
          rfl

theorem atomic_storeDataset (r : DatasetRef) (d : Dataset) : Atomic (storeDataset r d) := by
  constructor
  · intro s
    rcases hout : (storeDataset r d).out s with ⟨result, s'⟩
    cases result with
    | ok u =>
      obtain ⟨l, files, hl, ha, hs, rfl⟩ := storeDataset_ok_iff.mp hout
      exact (Change.store hl ha hs).changes
    | error e =>
      rw [eq_of_storeDataset_error hout]
      exact refl_of Changes s
  · intro s e he
    rcases hout : (storeDataset r d).out s with ⟨result, s'⟩
    rw [hout] at he
    cases he
    rw [eq_of_storeDataset_error hout]
    exact refl_of Printed s

/-! ### Procedures -/

theorem prints_inputDataset (data : Option DatasetRef) : Prints (inputDataset data) := by
  apply Leaves.bind .get
  intro s
  split
  · exact .bind (.ofExcept _) fun _ => .pure _
  · exact .throw _

theorem prints_checkColumns (r : DatasetRef) (d : Dataset) (names : List String) :
    Prints (checkColumns r d names) := by
  unfold checkColumns
  split
  · exact .throw _
  · exact .pure _

theorem prints_selectRows (condition : Expression) (rows : List Row) :
    Prints (selectRows condition rows) := by
  induction rows with
  | nil => exact .pure _
  | cons row rows ih =>
    unfold selectRows
    apply Leaves.bind .get
    intro s
    apply Leaves.bind (prints_log _)
    intro _
    apply Leaves.bind (.ofExcept _)
    intro v
    exact .bind ih fun _ => .pure _

theorem prints_inputRows (condition : Option Expression) (rows : List Row) :
    Prints (inputRows condition rows) := by
  cases condition with
  | some condition => exact prints_selectRows condition rows
  | none => exact .pure rows

theorem prints_noteSorted (request : SortRequest) (r : DatasetRef) (d : Dataset)
    (selected left : Nat) : Prints (noteSorted request r d selected left) := by
  unfold noteSorted
  dsimp only
  apply Leaves.guarded (prints_note _)
  apply Leaves.guarded (prints_note _)
  exact .bind (prints_log _) fun _ => prints_note _

theorem atomic_sort (request : SortRequest) : Atomic (sort request) := by
  apply Atomic.bind (prints_inputDataset _)
  rintro ⟨r, d⟩
  apply Atomic.bind (prints_checkColumns _ _ _)
  intro _
  apply Atomic.bind (prints_inputRows _ _)
  intro rows
  apply Atomic.bind (prints_noteSorted _ _ _ _ _)
  intro _
  exact atomic_storeDataset _ _

theorem atomic_means (request : MeansRequest) : Atomic (means request) := by
  apply Atomic.bind (prints_inputDataset _)
  rintro ⟨r, d⟩
  apply Atomic.bind (prints_checkColumns _ _ _)
  intro _
  apply Atomic.bind (prints_list _)
  intro _
  apply Atomic.bind (prints_log _)
  intro _
  split
  · exact .of_prints (.pure _)
  · apply Atomic.bind
    · apply Leaves.forIn
      intro column _
      dsimp only
      exact .guarded (prints_log _) (.pure _)
    · intro _
      apply Atomic.bind (prints_note _)
      intro _
      exact atomic_storeDataset _ _

theorem prints_print (request : PrintRequest) : Prints (print request) := by
  apply Leaves.bind (prints_inputDataset _)
  rintro ⟨r, d⟩
  exact .bind (prints_checkColumns _ _ _) fun _ => prints_list _

theorem prints_freq (request : FreqRequest) : Prints (freq request) := by
  apply Leaves.bind (prints_inputDataset _)
  rintro ⟨r, d⟩
  apply Leaves.bind (prints_checkColumns _ _ _)
  intro _
  refine .bind (.forIn ?_ _) fun _ => .pure _
  intro table _
  dsimp only
  apply Leaves.bind (prints_list _)
  intro _
  exact .guarded (prints_note _) (.pure _)

/-! ### Statements -/

theorem atomic_single (step : StepStatement) : Atomic (single step) := by
  unfold single
  split
  · next name e =>
    apply Atomic.bind .get
    intro s
    apply Atomic.bind (prints_log _)
    intro _
    apply Atomic.bind (.ofExcept _)
    intro v
    exact .modify fun s => (Change.assignVar s name v).changes
  · exact .of_prints (.throw _)
  · exact .of_prints (.throw _)

theorem atomic_libname (libref : String) (engine : Option String) (path : String)
    (readOnly : Bool) : Atomic (libname libref engine path readOnly) := by
  unfold libname
  dsimp only
  split
  · apply Atomic.bind .get
    intro s
    exact .bind (.pure _) fun engine => atomic_assignLibrary _ _ _ _
  · split
    · exact .bind (.pure _) fun engine => atomic_assignLibrary _ _ _ _
    · exact .of_prints (.fail _ _)

theorem changes_keepOutputs (outputs : List (DatasetRef × Dataset)) :
    Leaves Changes (keepOutputs outputs) := by
  induction outputs with
  | nil => exact .pure _
  | cons output outputs ih =>
    apply Leaves.bind ((prints_note _).mono Printed.changes)
    intro _
    apply Leaves.bind .get
    intro s
    dsimp only
    apply Leaves.guarded ((prints_list _).mono Printed.changes)
    exact .bind (atomic_storeDataset _ _).leaves fun _ => ih

theorem out_dataStep {outputs : List DatasetRef} {body : List StepStatement} {s : Session}
    {lines : List LogLine} {outcome : DataStep.Outcome}
    (h : DataStep.runStep (stepSetting s outputs) body = (lines, .ok outcome)) :
    (dataStep outputs body).out s =
      match (keepOutputs outcome.outputs).out { s with log := s.log ++ lines } with
      | (.ok _, t) => (.ok outcome.errors, t)
      | (.error e, t) => (.ok (outcome.errors ++ [e]), t.logError e) := by
  unfold dataStep
  rw [out_bind_of_ok (out_get s), h]
  dsimp only
  rw [out_bind_of_ok (out_log _ s), out_bind_of_ok (out_ofExcept _ _),
    out_bind_of_ok (out_attempt _ _)]
  rcases (keepOutputs outcome.outputs).out { s with log := s.log ++ lines } with ⟨result, t⟩
  cases result <;> rfl

theorem changes_dataStep (outputs : List DatasetRef) (body : List StepStatement) :
    Leaves Changes (dataStep outputs body) := by
  apply Leaves.bind .get
  intro s
  apply Leaves.bind ((prints_log _).mono Printed.changes)
  intro _
  apply Leaves.bind (.ofExcept _)
  intro outcome
  apply Leaves.bind (changes_keepOutputs outcome.outputs).attempt
  intro kept
  split
  · exact .pure _
  · exact .bind ((prints_log _).mono Printed.changes) fun _ => .pure _

theorem atomic_statement {st : Statement} (h : ∀ outputs body, st ≠ .dataStep outputs body) :
    Atomic (statement st) := by
  cases st with
  | dataStep outputs body => exact absurd rfl (h outputs body)
  | single step => exact (atomic_single step).result _
  | options settings => exact (Atomic.modify fun s => changes_setOptions s settings).result _
  | libname libref engine path readOnly => exact (atomic_libname _ _ _ _).result _
  | title text => exact (Atomic.modify fun s => (Change.title s text).changes).result _
  | macroLet name value =>
    exact (Atomic.modify fun s => (Change.assignMacro s name _).changes).result _
  | sort request => exact (atomic_sort request).result _
  | means request => exact (atomic_means request).result _
  | print request => exact (Atomic.of_prints (prints_print request)).result _
  | freq request => exact (Atomic.of_prints (prints_freq request)).result _
  | sql => exact .of_prints (.throw _)
  | unknownProcedure name => exact .of_prints (.throw _)
  | run => exact .of_prints (.pure _)

theorem changes_statement (st : Statement) : Leaves Changes (statement st) := by
  by_cases h : ∃ outputs body, st = .dataStep outputs body
  · obtain ⟨outputs, body, rfl⟩ := h
    exact changes_dataStep outputs body
  · exact (atomic_statement fun outputs body he => h ⟨outputs, body, he⟩).leaves

end Action

namespace Session

theorem changes_execute (s : Session) (statements : List Statement) :
    s.Changes (s.execute statements).2 := by
  induction statements generalizing s with
  | nil => exact refl_of Changes s
  | cons st statements ih =>
    have hst : s.Changes ((Action.statement st).run.run s).2 := (Action.changes_statement st).out s
    unfold Session.execute
    generalize (Action.statement st).run.run s = x at hst
    rcases x with ⟨r, t⟩
    cases r with
    | ok errors => exact trans_of Changes hst (ih t)
    | error e =>
      have hlog : t.Printed (t.logError e) := ⟨_, t.listing, rfl⟩
      exact trans_of Changes (hst.tail (.print hlog)) (ih (t.logError e))

theorem printed_logErrors (s : Session) (errors : List Error) :
    s.Printed (errors.foldl logError s) := by
  induction errors generalizing s with
  | nil => exact refl_of Printed s
  | cons e errors ih => exact trans_of Printed ⟨_, s.listing, rfl⟩ (ih (s.logError e))

theorem changes_run (s : Session) (source : String) : s.Changes (s.run source).2 := by
  unfold run
  cases Token.scan source with
  | error e => exact refl_of Changes s
  | ok tokens =>
    exact trans_of Changes (printed_logErrors s _).changes (changes_execute _ _)

/-- A session under a configuration: its libraries are assigned in order, and its options set. -/
theorem changes_start (config : Config) (files : FileTree) (today : Int) :
    ∃ t, Changes { files, today } t ∧ ∃ options : NameMap String,
      (∀ key ∈ options.entries.map (·.1), key = Text.upper "OBS") ∧
        (Session.start config files today).2 = { t with config, options } := by
  refine ⟨_, (Action.Leaves.forM fun l => ?_).out { files, today }, _, ?_, rfl⟩
  · exact (Action.atomic_assignLibrary _ _ _ _).leaves
  · split <;> simp [NameMap.insert, NameMap.insertEntry]

end Session

end StepLang
