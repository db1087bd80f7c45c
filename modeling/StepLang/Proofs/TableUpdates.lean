import StepLang.Proofs.Table

/-! # Updates of the table

Six updates make and change a table of variables, and all that a step does to its table is done by
them. An update adds names at the end at most, and a sound table stays sound.
-/

namespace StepLang.Variables

variable {vs ws : Variables}

inductive Update where
  | add (header : Header)
  | storeAt (i : Nat) (value : Value)
  | set (name : String) (value : Value)
  | reset
  | retain (name : String) (retained : Bool)
  | declareLength (name : String) (kind : Kind) (length : Nat)

def update (vs : Variables) : Update → Variables
  | .add h => (vs.add h.toVariable).1
  | .storeAt i value => vs.storeAt i value
  | .set name value => vs.set name value
  | .reset => vs.reset
  | .retain name retained => vs.retain name retained
  | .declareLength name kind length => (vs.declareLength name kind length).1

def ofUpdates (us : List Update) : Variables := us.foldl update empty

/-! ### Names -/

/-- The names as they were first spelled, in the order of their places. -/
def names (vs : Variables) : List String := vs.headers.map Header.name

theorem map_upper_names (vs : Variables) : vs.names.map Text.upper = vs.keys := by
  rw [names, List.map_map, keys_eq_map_headers]
  rfl

theorem names_modify {g : Variable → Variable} (hg : ∀ v, (g v).name = v.name) (i : Nat) :
    names ⟨vs.entries.modify i g⟩ = vs.names := by
  simp only [names, headers, List.map_map]
  exact map_modify hg vs.entries i

theorem names_prefix_add (vs : Variables) (v : Variable) : vs.names <+: (vs.add v).1.names := by
  by_cases h : vs.Has v.name
  · simp only [add_of_has h, List.prefix_rfl]
  · simp only [add_of_not_has h, names, headers, List.map_append]
    exact List.prefix_append _ _

theorem names_declareLength (v : Variable) (kind : Kind) (n : Nat) :
    (v.declareLength kind n).name = v.name := by
  unfold Variable.declareLength
  split <;> rfl

/-- An update adds names at the end at most. -/
theorem names_prefix_update (vs : Variables) (u : Update) : vs.names <+: (vs.update u).names := by
  cases u with
  | add header => exact vs.names_prefix_add _
  | storeAt i value => simp only [update, names, headers_storeAt, List.prefix_rfl]
  | set name value => exact (vs.headers_prefix_set name value).map Header.name
  | reset => simp only [update, names, headers_reset, List.prefix_rfl]
  | retain name retained =>
    rw [update, retain]
    split
    · simp only [names_modify (g := fun v => { v with retained }) fun _ => rfl, List.prefix_rfl]
    · exact List.prefix_rfl
  | declareLength name kind length =>
    rw [update, declareLength]
    simp only [names_modify fun v => names_declareLength v kind length]
    exact vs.names_prefix_add { name, kind }

theorem names_prefix_updates (vs : Variables) (us : List Update) :
    vs.names <+: (us.foldl update vs).names :=
  List.foldlRecOn us update (motive := fun ws => vs.names <+: ws.names) List.prefix_rfl
    fun ws h u _ => h.trans (ws.names_prefix_update u)

/-! ### Sound tables -/

theorem Sound.declareLength (h : vs.Sound) (name : String) (kind : Kind) (n : Nat) :
    (vs.declareLength name kind n).1.Sound :=
  (h.add (v := { name, kind }) (Value.kind_missingOf kind)).modify
    (fun v => v.key_declareLength kind n) (fun _ hv => hv.declareLength kind n) _

theorem Sound.retain (h : vs.Sound) (name : String) (retained : Bool) :
    (vs.retain name retained).Sound := by
  unfold Variables.retain
  split
  · exact h.modify (g := fun v => { v with retained }) (fun _ => rfl) (fun _ hv => hv) _
  · exact h

theorem Sound.update (h : vs.Sound) (u : Update) : (vs.update u).Sound := by
  cases u with
  | add header => exact h.add (Value.kind_missingOf header.kind)
  | storeAt i value => exact h.storeAt i value
  | set name value => exact h.set name value
  | reset => exact h.reset
  | retain name retained => exact h.retain name retained
  | declareLength name kind length => exact h.declareLength name kind length

theorem Sound.updates (h : vs.Sound) (us : List Update) : (us.foldl Variables.update vs).Sound :=
  List.foldlRecOn us Variables.update h fun _ h u _ => h.update u

/-! ### Growing -/

/-- One table is made of another by updates. -/
def Grows (vs ws : Variables) : Prop := ∃ us : List Update, us.foldl update vs = ws

theorem Grows.refl (vs : Variables) : vs.Grows vs := ⟨[], rfl⟩

theorem Grows.trans {us vs ws : Variables} (h : us.Grows vs) (h' : vs.Grows ws) : us.Grows ws := by
  obtain ⟨l, rfl⟩ := h
  obtain ⟨l', rfl⟩ := h'
  exact ⟨l ++ l', List.foldl_append⟩

theorem Grows.has (h : vs.Grows ws) {name : String} (hn : vs.Has name) : ws.Has name := by
  obtain ⟨us, rfl⟩ := h
  rw [Has, ← map_upper_names] at hn ⊢
  exact (List.IsPrefix.map Text.upper (vs.names_prefix_updates us)).subset hn

theorem Grows.sound (h : vs.Grows ws) (hs : vs.Sound) : ws.Sound := by
  obtain ⟨us, rfl⟩ := h
  exact hs.updates us

theorem grows_update (vs : Variables) (u : Update) : vs.Grows (vs.update u) := ⟨[u], rfl⟩

theorem grows_declare (vs : Variables) (name : String) (kind : Kind) :
    vs.Grows (vs.declare name kind) :=
  vs.grows_update (.add ⟨name, kind, none, false⟩)

theorem grows_set (vs : Variables) (name : String) (value : Value) :
    vs.Grows (vs.set name value) :=
  vs.grows_update (.set name value)

theorem grows_reset (vs : Variables) : vs.Grows vs.reset :=
  vs.grows_update .reset

theorem grows_retain (vs : Variables) (name : String) (retained : Bool) :
    vs.Grows (vs.retain name retained) :=
  vs.grows_update (.retain name retained)

theorem grows_declareLength (vs : Variables) (name : String) (kind : Kind) (n : Nat) :
    vs.Grows (vs.declareLength name kind n).1 :=
  vs.grows_update (.declareLength name kind n)

theorem has_add (vs : Variables) (v : Variable) : (vs.add v).1.Has v.name := by
  by_cases h : vs.Has v.name
  · rwa [add_of_has h]
  · rw [add_of_not_has h, Has, keys, List.map_append, ← v.key_eq]
    exact List.mem_append_right _ (List.mem_singleton_self _)

theorem has_declare (vs : Variables) (name : String) (kind : Kind) :
    (vs.declare name kind).Has name :=
  vs.has_add { name, kind }

theorem has_declareLength (vs : Variables) (name : String) (kind : Kind) (n : Nat) :
    (vs.declareLength name kind n).1.Has name := by
  have h := vs.has_declare name kind
  rw [Has, ← map_upper_names] at h ⊢
  rw [declareLength, names_modify fun v => names_declareLength v kind n]
  exact h

/-- A table grows through declarations one after the other, and each of them leaves its name. -/
theorem grows_foldl {α : Type} {op : Variables → α → Variables} {f : α → String}
    (hop : ∀ (vs : Variables) a, vs.Grows (op vs a)) (hf : ∀ vs a, (op vs a).Has (f a)) (l : List α)
    (vs : Variables) : vs.Grows (l.foldl op vs) ∧ ∀ a ∈ l, (l.foldl op vs).Has (f a) := by
  induction l generalizing vs with
  | nil => exact ⟨Grows.refl vs, by simp⟩
  | cons a l ih =>
    obtain ⟨hg, hh⟩ := ih (op vs a)
    refine ⟨(hop vs a).trans hg, fun b hb => ?_⟩
    rcases List.mem_cons.mp hb with rfl | hb
    · exact hg.has (hf vs b)
    · exact hh b hb

end StepLang.Variables
