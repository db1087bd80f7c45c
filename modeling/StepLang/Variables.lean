import StepLang.Text.Letters
import StepLang.Value

/-! # The variables of a step

A table of variables in the order of their first appearance, each with its current value. A name
finds its variable in any case of letters.
-/

namespace StepLang

/-- A variable and its current value, found by the upper case of its name. A character variable may
have a length to which texts are cut; a retained variable keeps its value from one observation to
the next. -/
structure Variable where
  name : String
  kind : Kind
  length : Option Nat := none
  retained : Bool := false
  value : Value := .missingOf kind
  key : String := Text.upper name
  key_eq : key = Text.upper name := by rfl
  deriving DecidableEq, Repr

namespace Variable

/-- The value as the variable keeps it: converted to its kind and cut to its length. -/
def fit (v : Variable) (value : Value) : Value :=
  match value.convert v.kind, v.length with
  | .text s, some n => if n < s.length then .text (String.ofList (s.toList.take n)) else .text s
  | value, _ => value

def store (v : Variable) (value : Value) : Variable :=
  { v with value := v.fit value }

def reset (v : Variable) : Variable :=
  if v.retained then v else { v with value := .missingOf v.kind }

/-- The variable with a declared kind and length; a new kind loses the value. -/
def declareLength (v : Variable) (kind : Kind) (length : Nat) : Variable :=
  if v.kind = kind then { v with length := some length }
  else { v with kind, length := some length, value := .missingOf kind }

end Variable

structure Variables where
  entries : List Variable
  deriving DecidableEq, Repr

namespace Variables

def empty : Variables := ⟨[]⟩

def size (vs : Variables) : Nat :=
  vs.entries.length

def index? (vs : Variables) (name : String) : Option Nat :=
  let key := Text.upper name
  vs.entries.findIdx? fun v => v.key == key

def find? (vs : Variables) (name : String) : Option Variable :=
  let key := Text.upper name
  vs.entries.find? fun v => v.key == key

/-- Adds a variable at the end unless its name is taken; gives its place. -/
def add (vs : Variables) (v : Variable) : Variables × Nat :=
  match vs.index? v.name with
  | some i => (vs, i)
  | none => (⟨vs.entries ++ [v]⟩, vs.size)

def declare (vs : Variables) (name : String) (kind : Kind) : Variables :=
  (vs.add { name, kind }).1

def valueAt (vs : Variables) (i : Nat) : Value :=
  match vs.entries[i]? with
  | some v => v.value
  | none => .missing

/-- Stores a value at a place; a place that is not there is left alone. -/
def storeAt (vs : Variables) (i : Nat) (value : Value) : Variables :=
  ⟨vs.entries.modify i (·.store value)⟩

/-- The value of a variable; missing if there is none of that name. -/
def get (vs : Variables) (name : String) : Value :=
  match vs.find? name with
  | some v => v.value
  | none => .missing

/-- Stores a value by name; a new variable takes the kind of the value. Gives the place. -/
def insert (vs : Variables) (name : String) (value : Value) : Variables × Nat :=
  let (vs, i) := vs.add { name, kind := value.kind }
  (vs.storeAt i value, i)

def set (vs : Variables) (name : String) (value : Value) : Variables :=
  (vs.insert name value).1

def reset (vs : Variables) : Variables :=
  ⟨vs.entries.map Variable.reset⟩

def retain (vs : Variables) (name : String) (retained : Bool) : Variables :=
  match vs.index? name with
  | some i => ⟨vs.entries.modify i fun v => { v with retained }⟩
  | none => vs

/-- Declares the kind and the length of a variable; gives its place. -/
def declareLength (vs : Variables) (name : String) (kind : Kind) (length : Nat) :
    Variables × Nat :=
  let (vs, i) := vs.add { name, kind }
  (⟨vs.entries.modify i (·.declareLength kind length)⟩, i)

end Variables

end StepLang
