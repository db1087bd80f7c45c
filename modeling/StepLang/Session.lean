import StepLang.Config
import StepLang.Evaluation
import StepLang.Listing
import StepLang.Log
import StepLang.NameMap
import StepLang.Syntax.Statement

/-! # Sessions

A session holds what outlives a step: libraries with their data sets, options, the title, variables
outside steps, macro variables, the listing, the log and the files.
-/

namespace StepLang

/-- How a library may be used; a temporary one has no files. -/
inductive Access where
  | readWrite
  | readOnly
  | temporary
  deriving DecidableEq, Repr

/-- A library: data sets in a directory, and those that are held in memory. -/
structure Library where
  name : String
  path : Option String
  engine : Engine := .json
  access : Access
  datasets : NameMap Dataset := {}

namespace Library

def work : Library := { name := "WORK", path := none, access := .temporary }

def file? (l : Library) (name : String) : Option String :=
  l.path.map fun directory => joinPath directory (Text.lower name ++ "." ++ l.engine.name)

def load? (l : Library) (files : FileTree) (name : String) : Except Error (Option Dataset) :=
  match l.datasets.find? name with
  | some d => .ok (some d)
  | none =>
    match l.file? name with
    | none => .ok none
    | some path =>
      if files.contains path then do
        let d ← l.engine.load files path
        return some { d with name }
      else .ok none

end Library

structure Session where
  config : Config := {}
  libraries : NameMap Library := NameMap.insert {} "WORK" .work
  options : NameMap String := {}
  title : Option String := none
  vars : NameMap Value := {}
  macros : NameMap String := {}
  last : Option DatasetRef := none
  listing : String := ""
  log : Log := #[]
  files : FileTree := {}
  today : Int := 0

/-- What is done in a session: it fails or gives a result, and changes the session in either
case. -/
abbrev Action := ExceptT Error (StateM Session)

/-- A name that a library can have: a letter or underscore, and up to seven more name characters. -/
def isLibref (name : String) : Bool :=
  match name.toList with
  | c :: cs => Text.isNameStart c && cs.all Text.isNameChar && cs.length ≤ 7
  | [] => false

namespace Session

/-- The library with a name; none stands for `WORK`. -/
def library (s : Session) (libref : Option String) : Except Error Library :=
  let name := libref.getD "WORK"
  match s.libraries.find? name with
  | some l => .ok l
  | none => .error (.unassignedLibrary (Text.upper name))

def dataset? (s : Session) (r : DatasetRef) : Except Error (Option Dataset) := do
  (← s.library r.libref).load? s.files r.name

def dataset (s : Session) (r : DatasetRef) : Except Error Dataset := do
  match ← s.dataset? r with
  | some d => return d
  | none => throw (.noDataset r.toText)

def hasDataset (s : Session) (r : DatasetRef) : Bool :=
  match s.dataset? r with
  | .ok (some _) => true
  | _ => false

def datasetNames (s : Session) (libref : Option String) : Except Error (List String) := do
  let l ← s.library libref
  return (l.datasets.entries.map (·.2.name)).mergeSort fun a b => a ≤ b

def value (s : Session) (name : String) : Value :=
  (s.vars.find? name).getD .missing

/-- The limit on the observations that a step reads; an option that is no count sets none. -/
def obsLimit (s : Session) : Option Nat :=
  (s.options.find? "OBS").bind fun v => Number.readCount? (Text.trim v)

def scope (s : Session) : Scope where
  value := s.value
  macroText? := s.macros.find?
  today := s.today

end Session

namespace Action

def ofExcept : Except Error α → Action α
  | .ok a => return a
  | .error e => throw e

def log (lines : List LogLine) : Action Unit :=
  modify fun s => { s with log := s.log ++ lines }

def note (text : String) : Action Unit :=
  log [⟨.info, "NOTE: " ++ text⟩]

def list (t : Table) : Action Unit :=
  modify fun s => { s with listing := appendTable s.listing s.title t }

def assignLibrary (name path : String) (engine : Engine) (access : Access) : Action Unit := do
  if !isLibref name then throw (.config (.invalidLibref name))
  let key := Text.upper name
  if key == "WORK" then throw (.config .workReassigned)
  if !(← get).files.isDirectory path then throw (.noLibraryPath path)
  note (s!"Libref {key} was successfully assigned: " ++
    s!"engine {Text.upper engine.name}, path {path}")
  let library : Library := { name := key, path := some path, engine, access }
  modify fun s => { s with libraries := s.libraries.insert name library }

def remember (l : Library) (r : DatasetRef) (d : Dataset) : Action Unit :=
  let l := { l with datasets := l.datasets.insert r.name d }
  modify fun s => { s with libraries := s.libraries.insert (r.libref.getD "WORK") l }

/-- Stores a data set under a name, in its file too if the library has a directory. It becomes the
last one. -/
def storeDataset (r : DatasetRef) (d : Dataset) : Action Unit := do
  let l ← ofExcept ((← get).library r.libref)
  if l.access = .readOnly then throw (.readOnlyLibrary l.name)
  let d := { d with name := r.name }
  match l.file? r.name with
  | none => pure ()
  | some path =>
    let files ← ofExcept (l.engine.save (← get).files path d)
    modify fun s => { s with files }
  remember l r d
  modify fun s => { s with last := some r }

/-- Reads a data set into memory, or makes a new one there. -/
def getOrCreate (r : DatasetRef) : Action Dataset := do
  let l ← ofExcept ((← get).library r.libref)
  let found ← ofExcept (l.load? (← get).files r.name)
  let d := found.getD { name := r.name }
  remember l r d
  return d

end Action

end StepLang
