import StepLang.Text.Letters

/-! # Maps by name

Maps whose keys are names in any case of letters. The keys are kept in upper case, in the order
in which they were first put in.
-/

namespace StepLang

structure NameMap (α : Type) where
  entries : List (String × α) := []

namespace NameMap

variable {α : Type}

def find? (m : NameMap α) (name : String) : Option α :=
  m.entries.lookup (Text.upper name)

def insertEntry (key : String) (a : α) : List (String × α) → List (String × α)
  | [] => [(key, a)]
  | (k, b) :: rest => if k = key then (k, a) :: rest else (k, b) :: insertEntry key a rest

def insert (m : NameMap α) (name : String) (a : α) : NameMap α :=
  ⟨insertEntry (Text.upper name) a m.entries⟩

def sortedKeys (m : NameMap α) : List String :=
  (m.entries.map (·.1)).mergeSort fun a b => a ≤ b

theorem lookup_insertEntry_self (key : String) (a : α) (entries : List (String × α)) :
    (insertEntry key a entries).lookup key = some a := by
  induction entries with
  | nil => simp [insertEntry]
  | cons entry rest ih =>
    obtain ⟨k, b⟩ := entry
    by_cases h : k = key
    · simp [insertEntry, h]
    · simp [insertEntry, h, List.lookup_cons, beq_false_of_ne (Ne.symm h), ih]

theorem find?_insert_self (m : NameMap α) (name : String) (a : α) :
    (m.insert name a).find? name = some a :=
  lookup_insertEntry_self _ _ _

theorem lookup_insertEntry_of_ne {key k : String} (h : k ≠ key) (a : α)
    (entries : List (String × α)) : (insertEntry key a entries).lookup k = entries.lookup k := by
  induction entries with
  | nil => simp [insertEntry, List.lookup_cons, beq_false_of_ne h]
  | cons entry rest ih =>
    obtain ⟨k', b⟩ := entry
    by_cases hk : k' = key
    · subst hk
      simp [insertEntry, List.lookup_cons, beq_false_of_ne h]
    · simp [insertEntry, hk, List.lookup_cons, ih]

theorem find?_insert_of_ne (m : NameMap α) {name other : String}
    (h : Text.upper other ≠ Text.upper name) (a : α) :
    (m.insert name a).find? other = m.find? other :=
  lookup_insertEntry_of_ne h _ _

theorem find?_insert_of_eq (m : NameMap α) {name other : String}
    (h : Text.upper other = Text.upper name) (a : α) :
    (m.insert name a).find? other = some a := by
  rw [find?, h]
  exact lookup_insertEntry_self _ _ _

end NameMap

end StepLang
