import StepLang.Proofs.Session.Changes

/-! # The library of a session

A session has the library `WORK` from its start on: it cannot be assigned anew, and storing data
sets leaves its kind as it is. So a data set can be stored there at any time.
-/

namespace StepLang

namespace Session

/-- The library `WORK` is there, is held in memory only and may be written to. -/
def HasWork (s : Session) : Prop :=
  ∃ l, s.libraries.find? "WORK" = some l ∧ l.path = none ∧ l.access = .temporary

theorem HasWork.of_libraries {s s' : Session} (h : s.HasWork) (hl : s'.libraries = s.libraries) :
    s'.HasWork := by
  rwa [HasWork, hl]

theorem HasWork.insert {s : Session} {name : String} {l : Library} (h : s.HasWork)
    (hl : Text.upper name = Text.upper "WORK" → l.path = none ∧ l.access = .temporary) :
    HasWork { s with libraries := s.libraries.insert name l } := by
  by_cases hname : Text.upper name = Text.upper "WORK"
  · exact ⟨l, NameMap.find?_insert_of_eq _ hname.symm _, hl hname⟩
  · obtain ⟨work, hwork, hkind⟩ := h
    refine ⟨work, ?_, hkind⟩
    rw [NameMap.find?_insert_of_ne _ (Ne.symm hname), hwork]

/-- It cannot be assigned anew, and a data set that is stored there leaves its kind as it is. -/
theorem HasWork.change {s t : Session} (h : Change s t) (hs : s.HasWork) : t.HasWork := by
  cases h with
  | print h =>
    obtain ⟨log, listing, rfl⟩ := h
    exact hs
  | assign path engine access _ hname =>
    apply hs.insert
    intro hwork
    exact absurd (hwork.trans (by decide +kernel)) hname
  | store hlib _ _ =>
    apply hs.insert
    intro hname
    obtain ⟨work, hwork, hkind⟩ := hs
    rw [library_eq_ok_iff, NameMap.find?, hname] at hlib
    obtain rfl := Option.some.inj (hlib.symm.trans hwork)
    exact hkind
  | option | title | assignVar | assignMacro => exact hs

theorem HasWork.changes {s t : Session} (h : s.Changes t) (hs : s.HasWork) : t.HasWork :=
  h.keeps HasWork.change hs

theorem HasWork.execute {s : Session} (h : s.HasWork) (statements : List Statement) :
    (s.execute statements).2.HasWork :=
  h.changes (changes_execute s statements)

/-- The sessions that there are: those that were started under a configuration and have run
statements. Between statements their files, the log and the listing may change, and the date. -/
inductive Reachable : Session → Prop
  | start (config : Config) (files : FileTree) (today : Int) :
    Reachable (Session.start config files today).2
  | execute {s : Session} (statements : List Statement) : Reachable s →
    Reachable (s.execute statements).2
  | outside {s : Session} (files : FileTree) (log : Log) (listing : String) (today : Int) :
    Reachable s → Reachable { s with files, log, listing, today }

theorem Reachable.hasWork {s : Session} (h : s.Reachable) : s.HasWork := by
  induction h with
  | start config files today =>
    have hfirst : HasWork { files, today } := ⟨.work, NameMap.find?_insert_self _ _ _, rfl, rfl⟩
    obtain ⟨t, hchanges, options, -, hstart⟩ := changes_start config files today
    rw [hstart]
    exact (hfirst.changes hchanges).of_libraries rfl
  | execute statements _ ih => exact ih.execute statements
  | outside files log listing today _ ih => exact ih.of_libraries rfl

theorem HasWork.library {s : Session} (h : s.HasWork) :
    ∃ l, s.library none = .ok l ∧ l.path = none ∧ l.access = .temporary := by
  obtain ⟨l, hl, hkind⟩ := h
  exact ⟨l, library_eq_ok_iff.mpr hl, hkind⟩

/-- A data set can be stored in `WORK`, and only the memory of the session changes. -/
theorem HasWork.storeDataset {s : Session} (h : s.HasWork) (name : String) (d : Dataset) :
    ∃ l, (Action.storeDataset (.work name) d).out s =
      (.ok (), s.keep (.work name) l d s.files) := by
  obtain ⟨l, hl, hpath, haccess⟩ := h.library
  have hfile : l.file? name = none := by rw [Library.file?, hpath, Option.map_none]
  refine ⟨l, storeDataset_ok_iff.mpr ⟨l, s.files, hl, ?_, ⟨fun _ => rfl, ?_⟩, rfl⟩⟩
  · rw [haccess]
    decide
  · intro path hp
    cases hfile.symm.trans hp

/-- The data set that was stored is read back under its name in any case of letters. -/
theorem dataset_keep {s : Session} {r r' : DatasetRef} {l : Library} {d : Dataset}
    {files : FileTree} (hl : r'.library = r.library) (hn : Text.upper r'.name = Text.upper r.name) :
    (s.keep r l d files).dataset r' = .ok { d with name := r.name } :=
  dataset_eq_ok_iff.mpr ⟨_, library_eq_ok_iff.mpr (NameMap.find?_insert_of_eq _ hl _),
    Library.load?_of_find? (NameMap.find?_insert_of_eq _ hn _) _⟩

end Session

namespace Action

open Session

theorem out_keepOutputs_work {s : Session} (h : s.HasWork) (name : String) (d : Dataset) :
    ∃ (s' : Session) (l : Library), s.Printed s' ∧ (keepOutputs [(.work name, d)]).out s =
      (.ok (), s'.keep (.work name) l d s'.files) := by
  have hstore (t : Session) (ht : s.Printed t) : ∃ (s' : Session) (l : Library), s.Printed s' ∧
      (do storeDataset (.work name) d; keepOutputs []).out t =
        (.ok (), s'.keep (.work name) l d s'.files) := by
    obtain ⟨l, hl⟩ := (h.changes ht.changes).storeDataset name d
    refine ⟨t, l, ht, ?_⟩
    rw [out_bind_of_ok hl]
    rfl
  have hlist (t : Table) (s' : Session) : (list t).out s' =
      (.ok (), { s' with listing := appendTable s'.listing s'.title t }) := rfl
  have hnote : (noteMade (.work name) d.rows.length d.columns.length).out s =
      (.ok (), { s with log := s.log ++ [_] }) := rfl
  unfold keepOutputs
  rw [out_bind_of_ok hnote, out_bind_of_ok (out_get _)]
  dsimp only
  split
  · rw [out_bind_of_ok (hlist _ _)]
    exact hstore _ ⟨_, _, rfl⟩
  · exact hstore _ ⟨_, _, rfl⟩

end Action

namespace Session

theorem HasWork.execute_dataStep {s : Session} (h : s.HasWork) {name : String}
    (hname : (DatasetRef.work name).isNull = false) {body : List StepStatement}
    {lines : List LogLine} {iterations : Nat} {d : Dataset}
    (hrun : DataStep.runStep (Action.stepSetting s [.work name]) body = (lines, .ok {
      outputs := (Action.stepSetting s [.work name]).outputs.map fun r =>
        (r, { d with name := r.name })
      errors := []
      iterations })) :
    ∃ (s' : Session) (l : Library), s.Printed s' ∧
      s.execute [.dataStep [.work name] body] = ([], s'.keep (.work name) l d s'.files) := by
  have hkept : (Action.stepSetting s [.work name]).outputs = [.work name] := by
    simp [Action.stepSetting, hname]
  rw [hkept, List.map_singleton] at hrun
  have hprinted : s.Printed { s with log := s.log ++ lines } := ⟨_, _, rfl⟩
  obtain ⟨s', l, hs', hkeep⟩ := Action.out_keepOutputs_work (h.changes hprinted.changes) name
    { d with name := (DatasetRef.work name).name }
  have hstep : (Action.statement (.dataStep [.work name] body)).run.run s =
      (.ok [], s'.keep (.work name) l d s'.files) := by
    change (Action.dataStep [.work name] body).out s = _
    rw [Action.out_dataStep hrun]
    dsimp only
    rw [hkeep]
    rfl
  refine ⟨s', l, trans_of Printed hprinted hs', ?_⟩
  unfold Session.execute
  rw [hstep]
  rfl

end Session

end StepLang
