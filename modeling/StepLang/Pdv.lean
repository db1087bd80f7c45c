import StepLang.NameMap
import StepLang.Variables

/-! # The program data vector

The variables of a step in three parts: what they are, their current values, and the places of
their names. Each part is changed on its own, and a place found in one part is used in another, so
that storing fails if the parts disagree.
-/

namespace StepLang

/-- A variable apart from its value. -/
structure Header where
  name : String
  kind : Kind
  length : Option Nat
  retained : Bool
  deriving DecidableEq, Repr

def Header.toVariable (h : Header) : Variable :=
  { name := h.name, kind := h.kind, length := h.length, retained := h.retained }

/-- The places are those of the upper case of the names. -/
structure Pdv where
  headers : List Header := []
  values : List Value := []
  index : NameMap Nat := {}

namespace Pdv

/-- A list with a new element in the place of one that is there. -/
def replace? {α : Type} (l : List α) (i : Nat) (a : α) : Option (List α) :=
  if i < l.length then some (l.set i a) else none

def place? (p : Pdv) (name : String) : Option Nat :=
  p.index.find? name

def valueAt (p : Pdv) (i : Nat) : Value :=
  p.values[i]?.getD .missing

/-- The value of a variable; missing if there is none of that name. -/
def get (p : Pdv) (name : String) : Value :=
  match p.place? name with
  | some i => p.valueAt i
  | none => .missing

/-- Adds a variable at the end unless its name is taken; gives its place. -/
def add (p : Pdv) (h : Header) : Pdv × Nat :=
  match p.place? h.name with
  | some i => (p, i)
  | none =>
    let i := p.headers.length
    ({ headers := p.headers ++ [h]
       values := p.values ++ [.missingOf h.kind]
       index := p.index.insert h.name i }, i)

/-- Stores a value at a place, as the variable there keeps it; a place without a variable is left
alone. -/
def storeAt? (p : Pdv) (i : Nat) (value : Value) : Option Pdv :=
  match p.headers[i]? with
  | some h => do
    let values ← replace? p.values i (h.toVariable.fit value)
    return { p with values }
  | none => some p

/-- Stores a value by name; a new variable takes the kind of the value. Gives the place. -/
def set? (p : Pdv) (name : String) (value : Value) : Option (Pdv × Nat) :=
  let (p, i) :=
    match p.place? name with
    | some i => (p, i)
    | none => p.add ⟨name, value.kind, none, false⟩
  (p.storeAt? i value).map (·, i)

/-- The values with which an observation starts; those behind the variables are left alone. -/
def resetValues : List Header → List Value → List Value
  | h :: hs, v :: vs => (if h.retained then v else .missingOf h.kind) :: resetValues hs vs
  | _, vs => vs

def reset (p : Pdv) : Pdv :=
  { p with values := resetValues p.headers p.values }

/-- Sets whether a variable is retained; tells whether there is one. -/
def retain? (p : Pdv) (name : String) (retained : Bool) : Option (Pdv × Bool) :=
  match p.place? name with
  | some i => do
    let h ← p.headers[i]?
    return ({ p with headers := p.headers.set i { h with retained } }, true)
  | none => some (p, false)

/-- Declares the kind and the length of the variable at a place. A new kind loses the value. -/
def declareAt? (p : Pdv) (i : Nat) (kind : Kind) (length : Nat) : Option Pdv := do
  let h ← p.headers[i]?
  let values ← if h.kind = kind then some p.values else replace? p.values i (.missingOf kind)
  let headers := p.headers.set i { h with kind, length := some length }
  return { p with headers, values }

/-- Declares the kind and the length of a variable, which is added if need be; gives its place. -/
def declareLength? (p : Pdv) (name : String) (kind : Kind) (length : Nat) : Option (Pdv × Nat) :=
  let (p, i) := p.add ⟨name, kind, none, false⟩
  (p.declareAt? i kind length).map (·, i)

end Pdv

end StepLang
