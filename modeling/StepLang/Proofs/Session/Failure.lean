import StepLang.Proofs.DataStep.History
import StepLang.Proofs.Session.Changes

/-! # Statements that fail

A statement that fails leaves the session as it was, up to what it printed. Only a DATA step can
have stored data sets before: those of its outputs that come before the one that cannot be
stored.
-/

namespace StepLang

open DataStep (Outcome runStep)

namespace Session

theorem Printed.symm {s t : Session} (h : s.Printed t) : t.Printed s := by
  obtain ⟨log, listing, rfl⟩ := h
  exact ⟨s.log, s.listing, rfl⟩

/-- The session in which data sets have been stored one after the other. -/
inductive Stored : Session → List (DatasetRef × Dataset) → Session → Prop
  | nil (s : Session) : Stored s [] s
  | cons {s t : Session} {r : DatasetRef} {d : Dataset} {rest : List (DatasetRef × Dataset)}
    {l : Library} {files : FileTree} : s.library r.libref = .ok l → l.access ≠ .readOnly →
    l.Saves s.files r.name { d with name := r.name } files →
    Stored (s.keep r l d files) rest t → Stored s ((r, d) :: rest) t

def held? (s : Session) (r : DatasetRef) : Option Dataset :=
  (s.libraries.find? (r.libref.getD "WORK")).bind (·.datasets.find? r.name)

def assignment? (s : Session) (name : String) : Option Library :=
  (s.libraries.find? name).map ({ · with datasets := {} })

/-- The last of some data sets that is stored under a name. -/
def lastStored? (r : DatasetRef) : List (DatasetRef × Dataset) → Option Dataset
  | [] => none
  | (r', d) :: rest =>
    (lastStored? r rest).or
      (if r'.library = r.library ∧ Text.upper r'.name = Text.upper r.name then
        some { d with name := r'.name }
      else none)

/-- The session with some data sets stored. Everything else in it is as before, up to what was
printed and the files. -/
structure StoredOnly (s : Session) (outputs : List (DatasetRef × Dataset)) (u : Session) :
    Prop where
  config : u.config = s.config
  today : u.today = s.today
  options : u.options = s.options
  title : u.title = s.title
  vars : u.vars = s.vars
  macros : u.macros = s.macros
  assignments : ∀ name, u.assignment? name = s.assignment? name
  held : ∀ r, u.held? r = (lastStored? r outputs).or (s.held? r)
  last : u.last = (outputs.map (·.1)).getLast?.or s.last

theorem StoredOnly.of_printed {s t u : Session} {outputs : List (DatasetRef × Dataset)}
    (h : s.StoredOnly outputs t) (ht : t.Printed u) : s.StoredOnly outputs u := by
  obtain ⟨log, listing, rfl⟩ := ht
  exact ⟨h.config, h.today, h.options, h.title, h.vars, h.macros, h.assignments, h.held, h.last⟩

namespace Stored

variable {s t : Session} {outputs : List (DatasetRef × Dataset)}

theorem of_printed {s' t' : Session} (h : Stored s' outputs t') (hs : s.Printed s') :
    ∃ t, Stored s outputs t ∧ t.Printed t' := by
  induction h generalizing s with
  | nil => exact ⟨s, .nil s, hs⟩
  | @cons s' t' r d rest l files hl ha hsaves _ ih =>
    obtain ⟨log, listing, rfl⟩ := hs
    have hkeep : (s.keep r l d files).Printed
        (Session.keep { s with log, listing } r l d files) := ⟨log, listing, rfl⟩
    obtain ⟨t, hstored, hprinted⟩ := ih hkeep
    exact ⟨t, .cons hl ha hsaves hstored, hprinted⟩

theorem last_eq (h : Stored s outputs t) : t.last = (outputs.map (·.1)).getLast?.or s.last := by
  induction h with
  | nil s => rfl
  | @cons s t r d rest l files _ _ _ _ ih =>
    rw [ih, List.map_cons, List.getLast?_cons]
    cases (rest.map (·.1)).getLast? <;> rfl

theorem assignment?_eq (h : Stored s outputs t) (name : String) :
    t.assignment? name = s.assignment? name := by
  induction h with
  | nil s => rfl
  | @cons s t r d rest l files hl _ _ _ ih =>
    rw [ih]
    unfold assignment? keep
    dsimp only
    by_cases hname : Text.upper name = Text.upper (r.libref.getD "WORK")
    · rw [NameMap.find?_insert_of_eq _ hname]
      have hl' : s.libraries.find? name = some l := by
        rw [NameMap.find?, hname]
        exact library_eq_ok_iff.mp hl
      rw [hl']
      rfl
    · rw [NameMap.find?_insert_of_ne _ hname]

/-- In memory is what was stored last under a name, and else what was there. -/
theorem held?_eq (h : Stored s outputs t) (r : DatasetRef) :
    t.held? r = (lastStored? r outputs).or (s.held? r) := by
  induction h with
  | nil s => rfl
  | @cons s t r' d rest l files hl _ _ _ ih =>
    rw [ih, lastStored?, Option.or_assoc]
    congr 1
    unfold held? keep
    dsimp only
    by_cases hlib : r'.library = r.library
    · have hl' : s.libraries.find? (r.libref.getD "WORK") = some l := by
        rw [NameMap.find?, show Text.upper (r.libref.getD "WORK") = _ from hlib.symm]
        exact library_eq_ok_iff.mp hl
      rw [NameMap.find?_insert_of_eq _ hlib.symm, hl']
      by_cases hname : Text.upper r'.name = Text.upper r.name
      · rw [if_pos ⟨hlib, hname⟩]
        exact NameMap.find?_insert_of_eq _ hname.symm _
      · rw [if_neg fun h => hname h.2]
        exact NameMap.find?_insert_of_ne _ (fun he => hname he.symm) _
    · rw [if_neg fun h => hlib h.1, NameMap.find?_insert_of_ne _ (fun he => hlib he.symm)]
      rfl

theorem only (h : Stored s outputs t) : s.StoredOnly outputs t := by
  have hothers : t.config = s.config ∧ t.today = s.today ∧ t.options = s.options ∧
      t.title = s.title ∧ t.vars = s.vars ∧ t.macros = s.macros := by
    induction h with
    | nil s => exact ⟨rfl, rfl, rfl, rfl, rfl, rfl⟩
    | cons _ _ _ _ ih => exact ih
  obtain ⟨hconfig, htoday, hoptions, htitle, hvars, hmacros⟩ := hothers
  exact ⟨hconfig, htoday, hoptions, htitle, hvars, hmacros, h.assignment?_eq, h.held?_eq,
    h.last_eq⟩

end Stored

end Session

namespace Action

open Session

theorem fst_out_storeDataset (r : DatasetRef) (d : Dataset) {s t : Session} (h : s.Printed t) :
    ((storeDataset r d).out t).1 = ((storeDataset r d).out s).1 := by
  obtain ⟨log, listing, rfl⟩ := h
  unfold storeDataset
  rw [out_bind_of_ok (out_get s), out_bind_of_ok (out_get _), out_bind, out_bind, out_ofExcept,
    out_ofExcept]
  rw [show Session.library { s with log, listing } r.libref = s.library r.libref from rfl]
  cases s.library r.libref with
  | error e => rfl
  | ok l =>
    dsimp only
    split
    · rfl
    · cases l.file? r.name with
      | none => rfl
      | some path =>
        dsimp only
        rw [out_bind_of_ok (out_get s), out_bind_of_ok (out_get _), out_bind, out_bind,
          out_ofExcept, out_ofExcept]
        dsimp only
        cases l.engine.save s.files path { d with name := r.name } <;> rfl

def StoreFails (s : Session) (r : DatasetRef) (d : Dataset) (e : Error) : Prop :=
  (storeDataset r d).out s = (.error e, s)

theorem storeFails_iff {s : Session} {r : DatasetRef} {d : Dataset} {e : Error} :
    StoreFails s r d e ↔ ((storeDataset r d).out s).1 = .error e := by
  constructor
  · intro h
    rw [h]
  · intro h
    rcases hout : (storeDataset r d).out s with ⟨result, t⟩
    rw [hout] at h
    cases h
    rw [StoreFails, hout, eq_of_storeDataset_error hout]

theorem StoreFails.of_printed {s t : Session} {r : DatasetRef} {d : Dataset} {e : Error}
    (h : StoreFails t r d e) (hs : s.Printed t) : StoreFails s r d e := by
  rw [storeFails_iff] at h ⊢
  rwa [← fst_out_storeDataset r d hs]

/-- An output is stored after its note, and after it is listed if the session is set so. -/
theorem out_keepOutputs_cons (r : DatasetRef) (d : Dataset) (rest : List (DatasetRef × Dataset))
    (s : Session) : ∃ t, s.Printed t ∧ (keepOutputs ((r, d) :: rest)).out s =
      (storeDataset r d >>= fun _ => keepOutputs rest).out t := by
  rw [keepOutputs, noteMade, note, out_bind_of_ok (out_log _ s), out_bind_of_ok (out_get _)]
  dsimp only
  split
  · exact ⟨_, ⟨_, _, rfl⟩, rfl⟩
  · exact ⟨_, ⟨_, s.listing, rfl⟩, rfl⟩

/-- Outputs are kept up to one that cannot be stored. -/
structure KeepsUntil (s : Session) (outputs before : List (DatasetRef × Dataset)) (r : DatasetRef)
    (d : Dataset) (e : Error) (u : Session) : Prop where
  outputs : before ++ [(r, d)] <+: outputs
  stored : ∃ t, s.Stored before t ∧ t.Printed u
  fails : StoreFails u r d e

theorem KeepsUntil.of_printed {s s' u u' : Session} {outputs before : List (DatasetRef × Dataset)}
    {r : DatasetRef} {d : Dataset} {e : Error} (h : KeepsUntil s' outputs before r d e u)
    (hs : s.Printed s') (hu : u.Printed u') : KeepsUntil s outputs before r d e u' := by
  obtain ⟨t', hstored, ht'⟩ := h.stored
  obtain ⟨t, ht, htt'⟩ := hstored.of_printed hs
  constructor
  · exact h.outputs
  · exact ⟨t, ht, trans_of Printed htt' (trans_of Printed ht' hu)⟩
  · exact h.fails.of_printed hu.symm

/-- Outputs that cannot all be kept are kept up to one that cannot be stored. -/
theorem keepsUntil_of_error {outputs : List (DatasetRef × Dataset)} {s u : Session} {e : Error}
    (h : (keepOutputs outputs).out s = (.error e, u)) :
    ∃ before r d, KeepsUntil s outputs before r d e u := by
  induction outputs generalizing s with
  | nil => cases h
  | cons output outputs ih =>
    obtain ⟨r, d⟩ := output
    obtain ⟨s', hs', hout⟩ := out_keepOutputs_cons r d outputs s
    rw [hout, out_bind] at h
    rcases hstore : (storeDataset r d).out s' with ⟨result, t⟩
    rw [hstore] at h
    cases result with
    | error e' =>
      cases h
      -- This is the output that cannot be stored, and nothing has changed since.
      obtain rfl := eq_of_storeDataset_error hstore
      exact ⟨[], r, d, ⟨⟨outputs, rfl⟩, ⟨s, .nil s, hs'⟩, hstore⟩⟩
    | ok _ =>
      obtain ⟨l, files, hl, ha, hsaves, rfl⟩ := storeDataset_ok_iff.mp hstore
      obtain ⟨before, r', d', hbefore⟩ := ih h
      obtain ⟨t, hstored, ht⟩ := hbefore.stored
      have hkept : KeepsUntil s' ((r, d) :: outputs) ((r, d) :: before) r' d' e u :=
        ⟨List.cons_prefix_cons.mpr ⟨rfl, hbefore.outputs⟩, ⟨t, .cons hl ha hsaves hstored, ht⟩,
          hbefore.fails⟩
      exact ⟨_, r', d', hkept.of_printed hs' (refl_of Printed u)⟩

def failure? {α : Type} (m : Action α) (s : Session) : Option Error :=
  match (m.out s).1 with
  | .ok _ => none
  | .error e => some e

theorem failure?_eq_some_iff {α : Type} {m : Action α} {s : Session} {e : Error} :
    m.failure? s = some e ↔ (m.out s).1 = .error e := by
  unfold failure?
  cases (m.out s).1 <;> simp

end Action

namespace Session

open StepLang.Action

/-- The error with which a statement fails. A DATA step fails at its plan, at its input or at
keeping its outputs, but not at an observation. -/
def failure? (s : Session) : Statement → Option Error
  | .dataStep outputs body =>
    match runStep (stepSetting s outputs) body with
    | (_, .error e) => some e
    | (lines, .ok outcome) =>
      (keepOutputs outcome.outputs).failure? { s with log := s.log ++ lines }
  | st => (statement st).failure? s

def observationErrors (s : Session) : Statement → List Error
  | .dataStep outputs body =>
    match runStep (stepSetting s outputs) body with
    | (_, .error _) => []
    | (_, .ok outcome) => outcome.errors
  | _ => []

theorem execute_single (s : Session) (st : Statement) :
    s.execute [st] =
      match (statement st).out s with
      | (.ok errors, t) => (errors, t)
      | (.error e, t) => ([e], t.logError e) := by
  unfold execute
  change (match (statement st).out s with | (.ok errors, t) => _ | (.error e, t) => _) = _
  rcases (statement st).out s with ⟨result, t⟩
  cases result with
  | ok errors => simp [execute]
  | error e => rfl

end Session

namespace Action

theorem fst_out_of_result (m : Action Unit) (s : Session) :
    ((m >>= fun _ => pure []).out s).1 =
      ((m.failure? s).elim (.ok []) .error : Except Error (List Error)) := by
  unfold failure?
  rw [out_bind]
  rcases m.out s with ⟨result, t⟩
  cases result <;> rfl

theorem failure?_result (m : Action Unit) (s : Session) :
    (m >>= fun _ => pure ([] : List Error)).failure? s = m.failure? s := by
  unfold failure?
  rw [out_bind]
  rcases m.out s with ⟨result, t⟩
  cases result <;> rfl

theorem fst_out_statement {st : Statement} (h : ∀ outputs body, st ≠ .dataStep outputs body)
    (s : Session) :
    ((statement st).out s).1 = (((statement st).failure? s).elim (.ok []) .error) := by
  have hresult (m : Action Unit) : ((m >>= fun _ => pure ([] : List Error)).out s).1 =
      (((m >>= fun _ => pure ([] : List Error)).failure? s).elim (.ok []) .error) := by
    rw [failure?_result, fst_out_of_result]
  cases st with
  | dataStep outputs body => exact absurd rfl (h outputs body)
  | single step => exact hresult _
  | options settings => exact hresult _
  | libname libref engine path readOnly => exact hresult _
  | title text => exact hresult _
  | macroLet name value => exact hresult _
  | sort request => exact hresult _
  | means request => exact hresult _
  | print request => exact hresult _
  | freq request => exact hresult _
  | sql => rfl
  | unknownProcedure name => rfl
  | run => rfl

theorem out_dataStep_error {outputs : List DatasetRef} {body : List StepStatement} {s : Session}
    {lines : List LogLine} {e : Error}
    (h : runStep (stepSetting s outputs) body = (lines, .error e)) :
    (dataStep outputs body).out s = (.error e, { s with log := s.log ++ lines }) := by
  unfold dataStep
  rw [out_bind_of_ok (out_get s), h]
  dsimp only
  rw [out_bind_of_ok (out_log _ s), out_bind, out_ofExcept]

end Action

namespace Session

open StepLang.Action

section

variable {st : Statement} (h : ∀ outputs body, st ≠ .dataStep outputs body) (s : Session)
include h

theorem failure?_eq : s.failure? st = (statement st).failure? s := by
  cases st <;> first | rfl | exact absurd rfl (h _ _)

theorem observationErrors_eq : s.observationErrors st = [] := by
  cases st <;> first | rfl | exact absurd rfl (h _ _)

end

section

variable {outputs : List DatasetRef} {body : List StepStatement} {lines : List LogLine}
  {s : Session}

theorem failure?_dataStep_error {e : Error}
    (h : runStep (stepSetting s outputs) body = (lines, .error e)) :
    s.failure? (.dataStep outputs body) = some e := by
  rw [Session.failure?, h]

theorem failure?_dataStep {outcome : Outcome}
    (h : runStep (stepSetting s outputs) body = (lines, .ok outcome)) :
    s.failure? (.dataStep outputs body) =
      (keepOutputs outcome.outputs).failure? { s with log := s.log ++ lines } := by
  rw [Session.failure?, h]

end

/-- The errors of a statement: those of observations, and the one with which it fails. -/
theorem errors_execute_single (s : Session) (st : Statement) :
    (s.execute [st]).1 = s.observationErrors st ++ (s.failure? st).toList := by
  rw [execute_single]
  by_cases h : ∃ outputs body, st = .dataStep outputs body
  · obtain ⟨outputs, body, rfl⟩ := h
    rw [statement, observationErrors]
    rcases hrun : runStep (stepSetting s outputs) body with ⟨lines, result⟩
    cases result with
    | error e =>
      rw [out_dataStep_error hrun, failure?_dataStep_error hrun]
      rfl
    | ok outcome =>
      rw [out_dataStep hrun, failure?_dataStep hrun, Action.failure?]
      rcases (keepOutputs outcome.outputs).out { s with log := s.log ++ lines } with ⟨kept, t⟩
      cases kept <;> simp
  · have h : ∀ outputs body, st ≠ .dataStep outputs body := fun outputs body he =>
      h ⟨outputs, body, he⟩
    rw [observationErrors_eq h, failure?_eq h, List.nil_append]
    rcases hout : (statement st).out s with ⟨result, t⟩
    obtain rfl : result = ((statement st).failure? s).elim (.ok []) .error := by
      rw [← fst_out_statement h s, hout]
    cases (statement st).failure? s <;> rfl

theorem map_fst_outputs {setting : DataStep.Setting} {body : List StepStatement}
    {lines : List LogLine} {outcome : Outcome}
    (h : runStep setting body = (lines, .ok outcome)) :
    outcome.outputs.map (·.1) = setting.outputs := by
  unfold runStep at h
  split at h
  · cases h
  · next notes plan rows _ =>
    have houtcome : outcome = (DataStep.execute setting body plan notes.toArray rows).2 := by
      cases h
      rfl
    rw [houtcome, DataStep.execute_eq]
    apply List.ext_getElem?
    intro j
    cases hj : setting.outputs[j]? <;> simp [hj]

/-- A statement that fails reports its error last. It leaves the session as it was, up to what it
printed. A DATA step that cannot store one of its outputs has stored those before it in the order of
the statement, each in full, and nothing else. -/
theorem failure_keeps_session {s : Session} {st : Statement} {e : Error}
    (h : s.failure? st = some e) :
    (s.execute [st]).1 = s.observationErrors st ++ [e] ∧
      (s.Printed (s.execute [st]).2 ∨
        ∃ outputs body lines outcome before r d, st = .dataStep outputs body ∧
          runStep (stepSetting s outputs) body = (lines, .ok outcome) ∧
          outcome.outputs.map (·.1) = outputs.filter (! ·.isNull) ∧
          KeepsUntil s outcome.outputs before r d e (s.execute [st]).2 ∧
          s.StoredOnly before (s.execute [st]).2) := by
  constructor
  · rw [errors_execute_single, h]
    rfl
  rw [execute_single]
  by_cases hstep : ∃ outputs body, st = .dataStep outputs body
  · obtain ⟨outputs, body, rfl⟩ := hstep
    rw [statement]
    rcases hrun : runStep (stepSetting s outputs) body with ⟨lines, result⟩
    cases result with
    | error e' =>
      left
      rw [out_dataStep_error hrun]
      exact ⟨_, s.listing, rfl⟩
    | ok outcome =>
      right
      rw [failure?_dataStep hrun, failure?_eq_some_iff] at h
      rcases hkept : (keepOutputs outcome.outputs).out { s with log := s.log ++ lines } with ⟨_, u⟩
      rw [hkept] at h
      cases h
      rw [out_dataStep hrun, hkept]
      obtain ⟨before, r, d, hbefore⟩ := keepsUntil_of_error hkept
      have hkeeps : KeepsUntil s outcome.outputs before r d e (u.logError e) :=
        hbefore.of_printed ⟨_, s.listing, rfl⟩ ⟨_, u.listing, rfl⟩
      obtain ⟨t, hstored, ht⟩ := hkeeps.stored
      exact ⟨outputs, body, lines, outcome, before, r, d, rfl, hrun, map_fst_outputs hrun, hkeeps,
        hstored.only.of_printed ht⟩
  · have hstep : ∀ outputs body, st ≠ .dataStep outputs body := fun outputs body he =>
      hstep ⟨outputs, body, he⟩
    left
    rw [failure?_eq hstep, failure?_eq_some_iff] at h
    have hprints := (atomic_statement hstep).prints s e h
    rcases hout : (statement st).out s with ⟨result, t⟩
    rw [hout] at h hprints
    cases h
    exact trans_of Printed hprints ⟨_, t.listing, rfl⟩

/-- A step with two outputs; there is no library for the second one. -/
def splitOutputs : Statement :=
  .dataStep [.work "a", ⟨some "nolib", "b"⟩] [.assign (.ref "x") (.number 1)]

theorem failure_keeps_session_split :
    ((Session.start {} {} 0).2.failure? splitOutputs = some (.unassignedLibrary "NOLIB")) ∧
      ¬ (Session.start {} {} 0).2.Printed ((Session.start {} {} 0).2.execute [splitOutputs]).2 ∧
      ∃ before r d, before.map (·.1) = [.work "a"] ∧ r = ⟨some "nolib", "b"⟩ ∧
        StoreFails ((Session.start {} {} 0).2.execute [splitOutputs]).2 r d
          (.unassignedLibrary "NOLIB") ∧
        (Session.start {} {} 0).2.StoredOnly before
          ((Session.start {} {} 0).2.execute [splitOutputs]).2 := by
  have hfails : (Session.start {} {} 0).2.failure? splitOutputs =
      some (.unassignedLibrary "NOLIB") := by decide +kernel
  have hlast : ((Session.start {} {} 0).2.execute [splitOutputs]).2.last = some (.work "a") := by
    decide +kernel
  obtain ⟨-, h⟩ := failure_keeps_session hfails
  have hchanged : ¬ (Session.start {} {} 0).2.Printed
      ((Session.start {} {} 0).2.execute [splitOutputs]).2 := by
    rintro ⟨log, listing, h⟩
    rw [h] at hlast
    cases hlast
  rcases h with h | ⟨outputs, body, lines, outcome, before, r, d, hst, -, houtputs, hkeeps, honly⟩
  · exact absurd h hchanged
  · cases hst
    have hprefix := hkeeps.outputs.map (·.1)
    rw [houtputs, List.map_append] at hprefix
    have hnames : before.map (·.1) ++ [r] <+: [.work "a", ⟨some "nolib", "b"⟩] := hprefix
    have hnone := honly.last
    rw [hlast] at hnone
    rcases before with _ | ⟨first, _ | ⟨second, rest⟩⟩
    · cases hnone
    · obtain ⟨hfirst, hr⟩ := List.cons_prefix_cons.mp hnames
      obtain ⟨hr, -⟩ := List.cons_prefix_cons.mp hr
      exact ⟨hfails, hchanged, _, r, d, by rw [← hfirst]; rfl, hr, hkeeps.fails, honly⟩
    · have hlen := hnames.length_le
      simp at hlen

end Session

end StepLang
