import StepLang.Storage

/-! # Configuration

The settings that a session starts with, read from a JSON document. Every setting has a default,
and members that are no settings are passed over.
-/

namespace StepLang

structure LibraryConfig where
  name : String
  path : String
  engine : Option Engine := none
  readOnly : Bool := false
  deriving DecidableEq, Repr

structure Config where
  maxLoopIterations : Nat := 1000000
  autoPrint : Bool := false
  obsLimit : Option Nat := none
  defaultEngine : Engine := .json
  libraries : List LibraryConfig := []
  deriving DecidableEq, Repr

namespace Config

open Json Storage

def countOf? : Document → Option Nat
  | .integer n => if 0 ≤ n then some n.toNat else none
  | _ => none

def flagOf? : Document → Option Bool
  | .bool b => some b
  | _ => none

/-- A format by its name in small letters, or as a record with that name alone and `null`. -/
def engineOf? : Document → Option Engine
  | .text s | .record [(s, .null)] =>
    match s with
    | "json" => some .json
    | "csv" => some .csv
    | _ => none
  | _ => none

def optionOf? (f : Document → Option α) : Document → Option (Option α)
  | .null => some none
  | d => (f d).map some

/-- The value of a setting, or its default if it is not given. -/
def settingOf? (f : Document → Option α) (default : α) : Option Document → Option α
  | none => some default
  | some d => f d

/-- The settings of a document, in the order given: the members of a record with these keys, or the
first items of a list that has no others. -/
def settings? (keys : List String) : Document → Option (List (Option Document))
  | .record members => keys.mapM (member? members)
  | .list items =>
    if items.length ≤ keys.length then
      some (items.map some ++ List.replicate (keys.length - items.length) none)
    else none
  | _ => none

def libraryOf? (d : Document) : Option LibraryConfig := do
  match ← settings? ["name", "path", "engine", "readonly"] d with
  | [some name, some path, engine, readOnly] =>
    return { name := ← textOf? name, path := ← textOf? path,
             engine := ← settingOf? (optionOf? engineOf?) none engine,
             readOnly := ← settingOf? flagOf? false readOnly }
  | _ => none

def ofDocument? (d : Document) : Option Config := do
  let keys := ["max_loop_iterations", "auto_print", "obs_limit", "default_engine", "libraries"]
  match ← settings? keys d with
  | [limit, print, obs, engine, libraries] =>
    return { maxLoopIterations := ← settingOf? countOf? 1000000 limit,
             autoPrint := ← settingOf? flagOf? false print,
             obsLimit := ← settingOf? (optionOf? countOf?) none obs,
             defaultEngine := ← settingOf? engineOf? .json engine,
             libraries := ← settingOf? (listOf? libraryOf?) [] libraries }
  | _ => none

def ofJson (text : String) : Except Error Config :=
  match (Json.read? text).bind ofDocument? with
  | none => .error (.config .invalidJson)
  | some c =>
    if c.maxLoopIterations = 0 then .error (.config .loopLimitNotPositive) else .ok c

end Config

end StepLang
