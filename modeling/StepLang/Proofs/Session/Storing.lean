import StepLang.Proofs.FileTree
import StepLang.Session

/-! # Storing data sets

A data set that is stored is read back as it was, under the name it was stored by. Every other data
set that could be read before is read as before, unless its file is the one that was written.
-/

namespace StepLang

namespace Action

variable {α β : Type}

/-- What an action does from a session: its result and the session that it leaves. -/
def out (m : Action α) (s : Session) : Except Error α × Session := m.run.run s

@[simp] theorem out_pure (a : α) (s : Session) : (pure a : Action α).out s = (.ok a, s) := rfl

@[simp] theorem out_throw (e : Error) (s : Session) :
    (throw e : Action α).out s = (.error e, s) := rfl

@[simp] theorem out_get (s : Session) : (get : Action Session).out s = (.ok s, s) := rfl

theorem out_bind (m : Action α) (k : α → Action β) (s : Session) :
    (m >>= k).out s =
      match m.out s with
      | (.ok a, s') => (k a).out s'
      | (.error e, s') => (.error e, s') := by
  simp only [out, ExceptT.run_bind, StateT.run_bind]
  show (match StateT.run (ExceptT.run m) s with | (a, s) => _) = _
  obtain ⟨r, s'⟩ := StateT.run (ExceptT.run m) s
  cases r <;> rfl

theorem out_bind_of_ok {m : Action α} {s s' : Session} {a : α} (h : m.out s = (.ok a, s'))
    (k : α → Action β) : (m >>= k).out s = (k a).out s' := by
  rw [out_bind, h]

theorem out_bind_ok_iff {m : Action α} {k : α → Action β} {s s' : Session} {b : β} :
    (m >>= k).out s = (.ok b, s') ↔ ∃ a t, m.out s = (.ok a, t) ∧ (k a).out t = (.ok b, s') := by
  rw [out_bind]
  obtain ⟨r, t⟩ := m.out s
  cases r with
  | error e => simp
  | ok a =>
    constructor
    · exact fun h => ⟨a, t, rfl, h⟩
    · rintro ⟨a', t', ht, h⟩
      cases ht
      exact h

@[simp] theorem out_ofExcept (r : Except Error α) (s : Session) :
    (ofExcept r).out s = (r, s) := by
  cases r <;> rfl

@[simp] theorem out_log (lines : List LogLine) (s : Session) :
    (log lines).out s = (.ok (), { s with log := s.log ++ lines }) := rfl

end Action

/-- The files after a library has saved a data set under a name: none is written if the library has
no directory. -/
def Library.Saves (l : Library) (files : FileTree) (name : String) (d : Dataset)
    (files' : FileTree) : Prop :=
  (l.file? name = none → files' = files) ∧
    ∀ path, l.file? name = some path → l.engine.save files path d = .ok files'

theorem Library.load?_of_find? {l : Library} {name : String} {d : Dataset}
    (h : l.datasets.find? name = some d) (files : FileTree) :
    l.load? files name = .ok (some d) := by
  simp only [load?, h]

namespace Session

/-- The session with a data set in the memory of its library. -/
def keep (s : Session) (r : DatasetRef) (l : Library) (d : Dataset) (files : FileTree) : Session :=
  { s with
    libraries := s.libraries.insert (r.libref.getD "WORK")
      { l with datasets := l.datasets.insert r.name { d with name := r.name } }
    files
    last := some r }

theorem storeDataset_ok_iff {s s' : Session} {r : DatasetRef} {d : Dataset} :
    (Action.storeDataset r d).out s = (.ok (), s') ↔
      ∃ l files, s.library r.libref = .ok l ∧ l.access ≠ .readOnly ∧
        l.Saves s.files r.name { d with name := r.name } files ∧ s' = s.keep r l d files := by
  unfold Action.storeDataset
  simp only [Action.out_bind_ok_iff, Action.out_get, Action.out_ofExcept, Prod.mk.injEq,
    Except.ok.injEq]
  constructor
  · rintro ⟨_, _, ⟨rfl, rfl⟩, l, _, ⟨hl, rfl⟩, h⟩
    split at h
    · rw [Action.out_bind, Action.out_throw] at h
      cases h
    · next ha =>
      split at h
      · next hf =>
        cases h
        exact ⟨l, s.files, hl, ha, ⟨fun _ => rfl, by simp [hf]⟩, rfl⟩
      · next path hf =>
        simp only [Action.out_bind_ok_iff, Action.out_get, Action.out_ofExcept, Prod.mk.injEq,
          Except.ok.injEq] at h
        obtain ⟨_, _, ⟨rfl, rfl⟩, files, _, ⟨hs, rfl⟩, h⟩ := h
        refine ⟨l, files, hl, ha, ⟨by simp [hf], fun p hp => ?_⟩, ?_⟩
        · cases hf.symm.trans hp
          exact hs
        · obtain ⟨_, _, hm, _, _, hr, h⟩ := h
          cases hm
          cases hr
          cases h
          rfl
  · rintro ⟨l, files, hl, ha, ⟨hn, hs⟩, rfl⟩
    refine ⟨s, s, ⟨rfl, rfl⟩, l, s, ⟨hl, rfl⟩, ?_⟩
    rw [if_neg ha]
    cases hf : l.file? r.name with
    | none =>
      rw [hn hf]
      rfl
    | some path =>
      simp only [Action.out_bind_ok_iff, Action.out_get, Action.out_ofExcept, Prod.mk.injEq,
        Except.ok.injEq]
      exact ⟨s, s, ⟨rfl, rfl⟩, files, s, ⟨hs path hf, rfl⟩, (), _, rfl, (), _, rfl, rfl⟩

/-- A data set can be stored under a name: its library is there and is not read-only, and its file,
if it has one, can be written. -/
def CanStore (s : Session) (r : DatasetRef) : Prop :=
  ∃ l, s.library r.libref = .ok l ∧ l.access ≠ .readOnly ∧
    ∀ path, l.file? r.name = some path → s.files.Writable path

theorem canStore_iff {s : Session} {r : DatasetRef} (d : Dataset) :
    s.CanStore r ↔ ∃ s', (Action.storeDataset r d).out s = (.ok (), s') := by
  simp only [storeDataset_ok_iff, CanStore]
  constructor
  · rintro ⟨l, hl, ha, hw⟩
    cases hf : l.file? r.name with
    | none => exact ⟨_, l, s.files, hl, ha, ⟨fun _ => rfl, by simp [hf]⟩, rfl⟩
    | some path =>
      obtain ⟨place, hr, -⟩ := hw path hf
      let content := (l.engine.encode { d with name := r.name }).toUTF8
      refine ⟨_, l, s.files.insertNode place (.file content), hl, ha,
        ⟨by simp [hf], fun p hp => ?_⟩, rfl⟩
      cases hf.symm.trans hp
      exact FileTree.write_ok_iff.mpr ⟨hw path hf, place, hr, rfl⟩
  · rintro ⟨_, l, files, hl, ha, ⟨-, hs⟩, -⟩
    exact ⟨l, hl, ha, fun path hf => (FileTree.write_ok_iff.mp (hs path hf)).1⟩

/-- Two names stand for one data set: they are the same in any case of letters, or their files are
at one place. -/
def SameDataset (s : Session) (r r' : DatasetRef) : Prop :=
  r.library = r'.library ∧ Text.upper r.name = Text.upper r'.name ∨
    ∃ l l' path path' place, s.library r.libref = .ok l ∧ s.library r'.libref = .ok l' ∧
      l.file? r.name = some path ∧ l'.file? r'.name = some path' ∧
      s.files.resolve path = .ok place ∧ s.files.resolve path' = .ok place

theorem library_eq_ok_iff {s : Session} {libref : Option String} {l : Library} :
    s.library libref = .ok l ↔ s.libraries.find? (libref.getD "WORK") = some l := by
  simp only [library]
  cases s.libraries.find? (libref.getD "WORK") <;> simp

theorem dataset_eq_ok_iff {s : Session} {r : DatasetRef} {d : Dataset} :
    s.dataset r = .ok d ↔
      ∃ l, s.library r.libref = .ok l ∧ l.load? s.files r.name = .ok (some d) := by
  unfold dataset dataset?
  cases hl : s.library r.libref with
  | error e => simp [bind, Except.bind]
  | ok l =>
    cases hd : l.load? s.files r.name with
    | error e => simp [bind, Except.bind, hd]
    | ok o => cases o <;> simp [bind, Except.bind, hd, pure, Except.pure, throw, throwThe]

variable {s : Session} {r : DatasetRef} {l : Library} {d : Dataset} {files : FileTree}

theorem dataset_keep_self : (s.keep r l d files).dataset r = .ok { d with name := r.name } := by
  rw [dataset_eq_ok_iff]
  exact ⟨_, library_eq_ok_iff.mpr (NameMap.find?_insert_self _ _ _),
    Library.load?_of_find? (NameMap.find?_insert_self _ _ _) _⟩

/-- What a library reads from memory or from a file that was not written is what it read before. -/
theorem load?_of_saves {l' : Library} {name name' : String} {d' : Dataset}
    (hs : l.Saves s.files name d files) (h : l'.load? s.files name' = .ok (some d'))
    (hne : ∀ path path' place, l.file? name = some path → l'.file? name' = some path' →
      s.files.resolve path = .ok place → s.files.resolve path' ≠ .ok place) :
    l'.load? files name' = .ok (some d') := by
  cases hf : l.file? name with
  | none => rwa [hs.1 hf]
  | some path =>
    have hw : s.files.write path (l.engine.encode d).toUTF8 = .ok files := hs.2 path hf
    unfold Library.load? at h ⊢
    split at h
    · exact h
    · split at h
      · cases h
      · next path' hf' =>
        split at h
        · next hc =>
          obtain ⟨node, hn⟩ : ∃ node, s.files.find path' = .ok node := by
            unfold FileTree.contains at hc
            cases hx : s.files.find path' with
            | ok node => exact ⟨node, rfl⟩
            | error fault => simp [hx, Except.toOption] at hc
          have hn' := FileTree.find_of_write hw hn fun place => hne path path' place hf hf'
          simp only [FileTree.contains, Engine.load, FileTree.read, hn, hn'] at h ⊢
          exact (if_pos rfl).trans h
        · cases h

/-- Another data set that could be read before is read as before. -/
theorem dataset_keep_other {r' : DatasetRef} {d' : Dataset} (hl : s.library r.libref = .ok l)
    (hs : l.Saves s.files r.name { d with name := r.name } files) (h : s.dataset r' = .ok d')
    (hne : ¬ s.SameDataset r r') : (s.keep r l d files).dataset r' = .ok d' := by
  obtain ⟨hname, hfile⟩ := not_or.mp hne
  obtain ⟨l', hl', hd'⟩ := dataset_eq_ok_iff.mp h
  have hd' : l'.load? files r'.name = .ok (some d') := by
    refine load?_of_saves hs hd' fun path path' place hp hp' hr hr' => ?_
    exact hfile ⟨l, l', path, path', place, hl, hl', hp, hp', hr, hr'⟩
  rw [dataset_eq_ok_iff]
  by_cases hlib : r.library = r'.library
  · -- the library of the stored data set, in which the other name still finds what it did
    have hnames : Text.upper r'.name ≠ Text.upper r.name := fun he => hname ⟨hlib, he.symm⟩
    obtain rfl : l = l' := by
      rw [library_eq_ok_iff] at hl hl'
      rw [NameMap.find?, show Text.upper (r.libref.getD "WORK") = _ from hlib] at hl
      exact Option.some.inj (hl.symm.trans hl')
    refine ⟨_, library_eq_ok_iff.mpr (NameMap.find?_insert_of_eq _ hlib.symm _), ?_⟩
    unfold Library.load? at hd' ⊢
    simp only [NameMap.find?_insert_of_ne _ hnames]
    exact hd'
  · refine ⟨l', ?_, hd'⟩
    rw [library_eq_ok_iff] at hl' ⊢
    rw [← hl']
    exact NameMap.find?_insert_of_ne _ (fun he => hlib he.symm) _

end Session

end StepLang
