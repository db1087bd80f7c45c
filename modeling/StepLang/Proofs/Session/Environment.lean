import StepLang.Proofs.Session.Work
import StepLang.Proofs.Text.Letters

/-! # The environment of a session

Whatever is done in a session, its names are kept in upper case: libraries under names of their
form, data sets under the names that they bear, and options and variables. The memory of a library
that is only read from stays empty as long as programs alone make changes.
-/

namespace StepLang

namespace NameMap

variable {α : Type}

/-- The keys and the values of the map are as `P` says. -/
def Each (P : String → α → Prop) (m : NameMap α) : Prop := ∀ key a, (key, a) ∈ m.entries → P key a

/-- The keys of the map are in upper case. -/
abbrev KeysUpper (m : NameMap α) : Prop := m.Each fun key _ => Text.upper key = key

theorem Each.empty {P : String → α → Prop} : Each P {} := by
  rintro _ _ ⟨⟩

theorem mem_insertEntry {key k : String} {a b : α} {entries : List (String × α)}
    (h : (k, b) ∈ insertEntry key a entries) : (k = key ∧ b = a) ∨ (k, b) ∈ entries := by
  induction entries with
  | nil => simpa [insertEntry] using h
  | cons entry rest ih =>
    rw [insertEntry] at h
    split at h
    · next hk =>
      rcases List.mem_cons.mp h with he | hmem
      · cases he
        exact .inl ⟨hk, rfl⟩
      · exact .inr (List.mem_cons_of_mem _ hmem)
    · rcases List.mem_cons.mp h with he | hmem
      · cases he
        exact .inr List.mem_cons_self
      · exact (ih hmem).imp_right (List.mem_cons_of_mem _)

theorem Each.insert {P : String → α → Prop} {m : NameMap α} (h : m.Each P) {name : String} {a : α}
    (ha : P (Text.upper name) a) : (m.insert name a).Each P := by
  intro key b hmem
  rcases mem_insertEntry hmem with ⟨rfl, rfl⟩ | hmem
  · exact ha
  · exact h key b hmem

theorem KeysUpper.insert {m : NameMap α} (h : m.KeysUpper) (name : String) (a : α) :
    (m.insert name a).KeysUpper :=
  Each.insert h (Text.upper_upper name)

theorem mem_of_find? {m : NameMap α} {name : String} {a : α} (h : m.find? name = some a) :
    (Text.upper name, a) ∈ m.entries := by
  obtain ⟨before, after, he, -⟩ := List.lookup_eq_some_iff.mp h
  rw [he]
  simp

end NameMap

/-- One to eight letters, digits and underscores of which a digit is not the first. -/
structure LibrefForm (name : String) : Prop where
  length : 1 ≤ name.length ∧ name.length ≤ 8
  chars : ∀ c ∈ name.toList, c.isAlphanum = true ∨ c = '_'
  start : ∀ c ∈ name.toList.head?, c.isDigit = false

theorem librefForm_upper {name : String} (h : isLibref name = true) :
    LibrefForm (Text.upper name) := by
  unfold isLibref at h
  split at h
  · next c cs hname =>
    simp only [Bool.and_eq_true, List.all_eq_true, decide_eq_true_eq] at h
    obtain ⟨⟨hstart, hchars⟩, hlen⟩ := h
    have hupper : (Text.upper name).toList = c.toUpper :: cs.map Char.toUpper := by
      simp [Text.upper, hname]
    constructor
    · rw [Text.length_upper, ← String.length_toList, hname, List.length_cons]
      omega
    · rw [hupper]
      intro d hd
      have hname : Text.isNameChar d = true := by
        rcases List.mem_cons.mp hd with rfl | hd
        · rw [Text.isNameChar_toUpper]
          exact Text.isNameChar_iff.mpr (.inl hstart)
        · obtain ⟨e, he, rfl⟩ := List.mem_map.mp hd
          exact (Text.isNameChar_toUpper e).trans (hchars e he)
      simpa [Text.isNameChar] using hname
    · rw [hupper]
      rintro _ ⟨⟩
      exact Text.isDigit_of_isNameStart ((Text.isNameStart_toUpper c).trans hstart)
  · cases h

/-- How a library is kept under its key. -/
structure Library.KeptAs (l : Library) (key : String) : Prop where
  named : key ≠ "WORK" → Text.upper key = key ∧ LibrefForm key ∧ l.name = key ∧ l.path.isSome
  datasets : l.datasets.Each fun name d => name = Text.upper d.name

/-- A data set that is read from a library bears the name under which it is kept. -/
theorem Library.KeptAs.upper_name {l : Library} {key name : String} {files : FileTree}
    {d : Dataset} (h : l.KeptAs key) (hd : l.load? files name = .ok (some d)) :
    Text.upper d.name = Text.upper name := by
  unfold load? at hd
  split at hd
  · next hfound =>
    cases hd
    exact (h.datasets _ _ (NameMap.mem_of_find? hfound)).symm
  · split at hd
    · cases hd
    · split at hd
      · simp only [bind, Except.bind] at hd
        generalize l.engine.load files _ = loaded at hd
        cases loaded with
        | error e => cases hd
        | ok d' =>
          cases hd
          rfl
      · cases hd

namespace Session

/-- The keys of a session are those by which it is searched. -/
structure WellKept (s : Session) : Prop where
  work : s.HasWork
  libraries : s.libraries.Each fun key l => l.KeptAs key
  options : s.options.KeysUpper
  vars : s.vars.KeysUpper
  macros : s.macros.KeysUpper

/-- No data set is in the memory of a library that is only read from. -/
def ReadOnlyEmpty (s : Session) : Prop :=
  s.libraries.Each fun _ l => l.access = .readOnly → l.datasets.entries = []

theorem mem_of_library {s : Session} {libref : Option String} {l : Library}
    (h : s.library libref = .ok l) :
    (Text.upper (libref.getD "WORK"), l) ∈ s.libraries.entries :=
  NameMap.mem_of_find? (library_eq_ok_iff.mp h)

theorem WellKept.putDataset {s : Session} (h : s.WellKept) {libref : Option String} {l : Library}
    (hl : s.library libref = .ok l) {name : String} {d : Dataset}
    (hd : Text.upper d.name = Text.upper name) :
    WellKept { s with
      libraries := s.libraries.insert (libref.getD "WORK")
        { l with datasets := l.datasets.insert name d } } := by
  have hkept := h.libraries _ _ (mem_of_library hl)
  constructor
  case work =>
    apply h.work.insert
    intro hname
    obtain ⟨work, hwork, hkind⟩ := h.work
    rw [library_eq_ok_iff, NameMap.find?, hname] at hl
    obtain rfl := Option.some.inj (hl.symm.trans hwork)
    exact hkind
  case libraries =>
    exact h.libraries.insert ⟨hkept.named, hkept.datasets.insert hd.symm⟩
  case options => exact h.options
  case vars => exact h.vars
  case macros => exact h.macros

theorem WellKept.change {s t : Session} (hchange : Change s t) (h : s.WellKept) : t.WellKept := by
  cases hchange with
  | print hprinted =>
    obtain ⟨log, listing, rfl⟩ := hprinted
    exact ⟨h.work, h.libraries, h.options, h.vars, h.macros⟩
  | assign path engine access hname hwork =>
    have hassigned : (s.assigned _ path engine access).HasWork :=
      h.work.change (.assign path engine access hname hwork)
    refine ⟨hassigned, h.libraries.insert ⟨fun _ => ?_, .empty⟩, h.options, h.vars, h.macros⟩
    exact ⟨Text.upper_upper _, librefForm_upper hname, rfl, rfl⟩
  | @store r d _ _ hl _ _ =>
    have hput : WellKept _ := @putDataset s h r.libref _ hl r.name { d with name := r.name } rfl
    exact ⟨hput.work, hput.libraries, h.options, h.vars, h.macros⟩
  | option name value =>
    exact ⟨h.work, h.libraries, h.options.insert name value, h.vars, h.macros⟩
  | title text => exact ⟨h.work, h.libraries, h.options, h.vars, h.macros⟩
  | assignVar name value =>
    exact ⟨h.work, h.libraries, h.options, h.vars.insert name value, h.macros⟩
  | assignMacro name text =>
    exact ⟨h.work, h.libraries, h.options, h.vars, h.macros.insert name text⟩

theorem ReadOnlyEmpty.change {s t : Session} (hchange : Change s t) (h : s.ReadOnlyEmpty) :
    t.ReadOnlyEmpty := by
  cases hchange with
  | print hprinted =>
    obtain ⟨log, listing, rfl⟩ := hprinted
    exact h
  | assign path engine access _ _ => exact h.insert fun _ => rfl
  | store _ haccess _ => exact h.insert fun hread => absurd hread haccess
  | option | title | assignVar | assignMacro => exact h

end Session

/-! ### Sessions with other changes -/

/-- The operations on a session that do not need a program. -/
inductive Operation where
  | assignLibrary (name path : String) (engine : Engine) (access : Access)
  | storeDataset (r : DatasetRef) (d : Dataset)
  | getOrCreate (r : DatasetRef)
  | setOption (name value : String)
  | setTitle (text : Option String)
  | setVar (name : String) (value : Value)
  | setMacro (name text : String)

def Operation.perform : Operation → Action Unit
  | assignLibrary name path engine access => Action.assignLibrary name path engine access
  | storeDataset r d => Action.storeDataset r d
  | getOrCreate r => do
    let _ ← Action.getOrCreate r
    return
  | setOption name value => modify fun s => { s with options := s.options.insert name value }
  | setTitle text => modify fun s => { s with title := text }
  | setVar name value => modify fun s => { s with vars := s.vars.insert name value }
  | setMacro name text => modify fun s => { s with macros := s.macros.insert name text }

/-- What happens to a session: an operation, a program, or something outside of it. -/
inductive Event where
  | operation (op : Operation)
  | program (source : String)
  | outside (files : FileTree) (log : Log) (listing : String) (today : Int)

namespace Session

def after (s : Session) : Event → Session
  | .operation op => (op.perform.out s).2
  | .program source => (s.run source).2
  | .outside files log listing today => { s with files, log, listing, today }

/-- The data set that is found in a library, or a new one, is put into memory. -/
theorem WellKept.getOrCreate {s : Session} (h : s.WellKept) (r : DatasetRef) :
    ((Action.getOrCreate r).out s).2.WellKept := by
  unfold Action.getOrCreate
  rw [Action.out_bind_of_ok (Action.out_get s), Action.out_bind, Action.out_ofExcept]
  cases hl : s.library r.libref with
  | error e => exact h
  | ok l =>
    dsimp only
    rw [Action.out_bind_of_ok (Action.out_get s), Action.out_bind, Action.out_ofExcept]
    cases hload : l.load? s.files r.name with
    | error e => exact h
    | ok found =>
      have hname : Text.upper (found.getD { name := r.name }).name = Text.upper r.name := by
        cases found with
        | none => rfl
        | some d => exact (h.libraries _ _ (mem_of_library hl)).upper_name hload
      exact h.putDataset hl hname

theorem changes_perform {op : Operation} (hop : ∀ r, op ≠ .getOrCreate r) (s : Session) :
    s.Changes (op.perform.out s).2 := by
  cases op with
  | assignLibrary name path engine access =>
    exact (Action.atomic_assignLibrary name path engine access).changes s
  | storeDataset r d => exact (Action.atomic_storeDataset r d).changes s
  | getOrCreate r => exact absurd rfl (hop r)
  | setOption name value => exact (Change.option s name value).changes
  | setTitle text => exact (Change.title s text).changes
  | setVar name value => exact (Change.assignVar s name value).changes
  | setMacro name text => exact (Change.assignMacro s name text).changes

theorem WellKept.perform {s : Session} (h : s.WellKept) (op : Operation) :
    (op.perform.out s).2.WellKept := by
  -- Fetching a data set puts it into any library, so it is no `Change`.
  by_cases hop : ∃ r, op = .getOrCreate r
  · obtain ⟨r, rfl⟩ := hop
    have hput := h.getOrCreate r
    unfold Operation.perform
    rw [Action.out_bind]
    generalize (Action.getOrCreate r).out s = x at hput
    rcases x with ⟨result, t⟩
    cases result <;> exact hput
  · exact (changes_perform (fun r he => hop ⟨r, he⟩) s).keeps WellKept.change h

theorem WellKept.after {s : Session} (h : s.WellKept) (event : Event) :
    (s.after event).WellKept := by
  cases event with
  | operation op => exact h.perform op
  | program source => exact (changes_run s source).keeps WellKept.change h
  | outside files log listing today => exact ⟨h.work, h.libraries, h.options, h.vars, h.macros⟩

theorem ReadOnlyEmpty.after {s : Session} (h : s.ReadOnlyEmpty) {event : Event}
    (he : ∀ r, event ≠ .operation (.getOrCreate r)) : (s.after event).ReadOnlyEmpty := by
  cases event with
  | operation op =>
    have hop : ∀ r, op ≠ .getOrCreate r := by
      rintro r rfl
      exact he r rfl
    exact (changes_perform hop s).keeps ReadOnlyEmpty.change h
  | program source => exact (changes_run s source).keeps ReadOnlyEmpty.change h
  | outside files log listing today => exact h

theorem wellKept_start (config : Config) (files : FileTree) (today : Int) :
    (Session.start config files today).2.WellKept ∧
      (Session.start config files today).2.ReadOnlyEmpty := by
  obtain ⟨t, hchanges, options, hoptions, hstart⟩ := changes_start config files today
  have hwork : NameMap.Each (fun key l => Library.KeptAs l key)
      ({ files, today } : Session).libraries := by
    refine NameMap.Each.insert .empty ⟨fun hne => ?_, .empty⟩
    exact absurd (by decide +kernel) hne
  have hfirst : WellKept { files, today } :=
    ⟨⟨.work, NameMap.find?_insert_self _ _ _, rfl, rfl⟩, hwork, .empty, .empty, .empty⟩
  have hempty : ReadOnlyEmpty { files, today } := NameMap.Each.insert .empty fun _ => rfl
  have hkept := hchanges.keeps WellKept.change hfirst
  have hkeys : options.KeysUpper := by
    intro key value hmem
    rw [hoptions key (List.mem_map_of_mem hmem), Text.upper_upper]
  rw [hstart]
  exact ⟨⟨hkept.work, hkept.libraries, hkeys, hkept.vars, hkept.macros⟩,
    hchanges.keeps ReadOnlyEmpty.change hempty⟩

/-- Whatever has happened to a session, its names are kept in upper case and its libraries and data
sets under their own names. No data set is in the memory of a library that is only read from, unless
one was fetched there by an operation. -/
theorem environment_wellKept (config : Config) (files : FileTree) (today : Int)
    (events : List Event) :
    (events.foldl after (Session.start config files today).2).WellKept ∧
      ((∀ event ∈ events, ∀ r, event ≠ .operation (.getOrCreate r)) →
        (events.foldl after (Session.start config files today).2).ReadOnlyEmpty) := by
  obtain ⟨hkept, hempty⟩ := wellKept_start config files today
  generalize (Session.start config files today).2 = s at hkept hempty
  constructor
  · exact List.foldlRecOn events after hkept fun t h event _ => WellKept.after h event
  · intro hevents
    exact List.foldlRecOn events after hempty fun t h event he =>
      ReadOnlyEmpty.after h (hevents event he)

def archive : FileTree := { nodes := [(["d"], .directory)] }

/-- A library that is only read from, a data set that cannot be stored there, and a program. -/
def readings : List Event :=
  [.operation (.assignLibrary "Old" "d" .json .readOnly),
    .operation (.storeDataset ⟨"Old", "a"⟩ { name := "a" }),
    .program "data b; run; %let Year = 1;", .outside {} #[] "" 1]

theorem environment_wellKept_readings :
    (readings.foldl after (Session.start {} archive 0).2).libraries.entries.map (·.2.access) =
        [.temporary, .readOnly] ∧
      (readings.foldl after (Session.start {} archive 0).2).WellKept ∧
      (readings.foldl after (Session.start {} archive 0).2).ReadOnlyEmpty := by
  have hdirectory : archive.isDirectory "d" = true := by
    rw [FileTree.isDirectory, FileTree.find, FileTree.resolve,
      FileTree.components_ofList_singleton (by decide)]
    rfl
  have hassigned : (Operation.perform (.assignLibrary "Old" "d" .json .readOnly)).out
      (Session.start {} archive 0).2 = _ :=
    @Action.out_assignLibrary_ok "Old" "d" .json .readOnly (Session.start {} archive 0).2
      ⟨by decide +kernel, by decide +kernel, hdirectory⟩
  obtain ⟨hkept, hempty⟩ := environment_wellKept {} archive 0 readings
  constructor
  · rw [readings, List.foldl_cons, after, hassigned]
    decide +kernel
  · exact ⟨hkept, hempty (by simp [readings])⟩

end Session

end StepLang
