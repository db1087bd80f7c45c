import StepLang.Pdv

/-! # The table of variables

The table is what the variables are apart from their values. Storing and resetting keep it, except
that a value stored under a new name adds a variable at the end. In a sound table the names are
distinct in any case of letters, and every value is of the kind of its variable.
-/

namespace StepLang

theorem Value.kind_missingOf (k : Kind) : (Value.missingOf k).kind = k := by
  cases k <;> rfl

theorem Value.kind_convert (v : Value) (k : Kind) : (v.convert k).kind = k := by
  cases k <;> cases v <;> simp only [Value.convert] <;> first | rfl | (split <;> rfl)

namespace Variable

def header (v : Variable) : Header := ⟨v.name, v.kind, v.length, v.retained⟩

theorem eq_of_header {v w : Variable} (h : v.header = w.header) (hv : v.value = w.value) :
    v = w := by
  obtain ⟨name, kind, length, retained, value, key, hk⟩ := v
  obtain ⟨name', kind', length', retained', value', key', hk'⟩ := w
  simp only [header, Header.mk.injEq] at h
  obtain ⟨rfl, rfl, rfl, rfl⟩ := h
  obtain rfl : key = key' := hk.trans hk'.symm
  simp only at hv
  subst hv
  rfl

@[simp] theorem header_store (v : Variable) (value : Value) : (v.store value).header = v.header :=
  rfl

@[simp] theorem header_reset (v : Variable) : v.reset.header = v.header := by
  unfold reset
  split <;> rfl

@[simp] theorem key_store (v : Variable) (value : Value) : (v.store value).key = v.key := rfl

@[simp] theorem key_declareLength (v : Variable) (k : Kind) (n : Nat) :
    (v.declareLength k n).key = v.key := by
  unfold declareLength
  split <;> rfl

theorem header_declareLength (v : Variable) (kind : Kind) (n : Nat) :
    (v.declareLength kind n).header = { v.header with kind, length := some n } := by
  unfold declareLength
  split
  · next hk => simp [header, hk]
  · rfl

theorem kind_fit (v : Variable) (value : Value) : (v.fit value).kind = v.kind := by
  have hk : (value.convert v.kind).kind = v.kind := value.kind_convert v.kind
  unfold fit
  split
  · next hs _ =>
    rw [hs] at hk
    split <;> exact hk
  · exact hk

/-- A value is of the kind of its variable. -/
def Typed (v : Variable) : Prop := v.value.kind = v.kind

theorem typed_store (v : Variable) (value : Value) : (v.store value).Typed :=
  v.kind_fit value

theorem Typed.reset {v : Variable} (h : v.Typed) : v.reset.Typed := by
  unfold Variable.reset
  split
  · exact h
  · exact Value.kind_missingOf v.kind

theorem Typed.declareLength {v : Variable} (h : v.Typed) (k : Kind) (n : Nat) :
    (v.declareLength k n).Typed := by
  unfold Variable.declareLength
  split
  · exact h
  · exact Value.kind_missingOf k

/-- What a variable starts an observation with depends on its header, and on its value only if it
is retained. -/
theorem reset_congr {v w : Variable} (h : v.header = w.header)
    (hv : v.retained = true → v.value = w.value) : v.reset = w.reset := by
  have hr : v.retained = w.retained := congrArg Header.retained h
  have hk : v.kind = w.kind := congrArg Header.kind h
  apply eq_of_header
  · rw [header_reset, header_reset, h]
  · unfold reset
    rw [← hr, ← hk]
    split
    · next hv' => exact hv hv'
    · rfl

end Variable

namespace Variables

/-- The table without its values. -/
def headers (vs : Variables) : List Header := vs.entries.map Variable.header

/-- The upper case of the names of the table. -/
def keys (vs : Variables) : List String := vs.entries.map Variable.key

/-- There is a variable of the name, in any case of letters. -/
def Has (vs : Variables) (name : String) : Prop := Text.upper name ∈ vs.keys

instance (vs : Variables) (name : String) : Decidable (vs.Has name) :=
  inferInstanceAs (Decidable (_ ∈ _))

theorem keys_eq_map_headers (vs : Variables) :
    vs.keys = vs.headers.map fun h => Text.upper h.name := by
  simp only [keys, headers, List.map_map]
  exact List.map_congr_left fun v _ => v.key_eq

theorem keys_congr {vs ws : Variables} (h : vs.headers = ws.headers) : vs.keys = ws.keys := by
  rw [keys_eq_map_headers, keys_eq_map_headers, h]

theorem has_iff_of_headers {vs ws : Variables} (h : vs.headers = ws.headers) (name : String) :
    vs.Has name ↔ ws.Has name := by
  rw [Has, Has, keys_congr h]

theorem has_name {vs : Variables} {v : Variable} (h : v ∈ vs.entries) : vs.Has v.name := by
  rw [Has, ← v.key_eq]
  exact List.mem_map_of_mem h

theorem find?_isSome_iff (vs : Variables) (name : String) :
    (vs.find? name).isSome = true ↔ vs.Has name := by
  simp only [find?, List.find?_isSome, beq_iff_eq, Has, keys, List.mem_map]

theorem index?_eq_none_iff (vs : Variables) (name : String) :
    vs.index? name = none ↔ ¬ vs.Has name := by
  simp only [index?, List.findIdx?_eq_none_iff, beq_eq_false_iff_ne, Has, keys, List.mem_map,
    not_exists, not_and]

theorem Has.index? {vs : Variables} {name : String} (h : vs.Has name) :
    ∃ i, vs.index? name = some i := by
  cases hi : vs.index? name with
  | none => exact absurd h ((vs.index?_eq_none_iff name).mp hi)
  | some i => exact ⟨i, rfl⟩

/-! ### What the operations do to the table -/

theorem add_of_has {vs : Variables} {v : Variable} (h : vs.Has v.name) :
    (vs.add v).1 = vs := by
  obtain ⟨i, hi⟩ := h.index?
  rw [add, hi]

theorem add_of_not_has {vs : Variables} {v : Variable} (h : ¬ vs.Has v.name) :
    vs.add v = (⟨vs.entries ++ [v]⟩, vs.size) := by
  rw [add, (vs.index?_eq_none_iff v.name).mpr h]

theorem set_of_has {vs : Variables} {name : String} (h : vs.Has name) (value : Value) :
    ∃ i, vs.index? name = some i ∧ vs.set name value = vs.storeAt i value := by
  obtain ⟨i, hi⟩ := h.index?
  exact ⟨i, hi, by simp only [set, insert, add, hi]⟩

theorem set_of_not_has {vs : Variables} {name : String} (h : ¬ vs.Has name) (value : Value) :
    vs.set name value =
      ⟨vs.entries ++ [({ name, kind := value.kind } : Variable).store value]⟩ := by
  simp only [set, insert, add_of_not_has (v := { name, kind := value.kind }) h, storeAt, size]
  rw [List.modify_eq_take_drop, List.take_left, List.drop_left]
  rfl

/-- Changing one entry in a way that keeps a property of it keeps the list of that property. -/
theorem map_modify {α β : Type} {f : α → β} {g : α → α} (h : ∀ a, f (g a) = f a) (l : List α)
    (i : Nat) : (l.modify i g).map f = l.map f := by
  apply List.ext_getElem?
  intro j
  simp only [List.getElem?_map, List.getElem?_modify]
  cases l[j]? with
  | none => rfl
  | some a => by_cases hij : i = j <;> simp [hij, h]

theorem map_modify_eq_set {α β : Type} (f : α → β) (g : α → α) {l : List α} {i : Nat} {a : α}
    (h : l[i]? = some a) : (l.modify i g).map f = (l.map f).set i (f (g a)) := by
  obtain ⟨hlt, rfl⟩ := List.getElem?_eq_some_iff.mp h
  apply List.ext_getElem?
  intro j
  rw [List.getElem?_map, List.getElem?_modify, List.getElem?_set, List.length_map]
  by_cases hij : i = j
  · subst hij
    simp [hlt]
  · simp [hij]

@[simp] theorem headers_storeAt (vs : Variables) (i : Nat) (value : Value) :
    (vs.storeAt i value).headers = vs.headers :=
  map_modify (fun v => v.header_store value) vs.entries i

theorem headers_set_of_has {vs : Variables} {name : String} (h : vs.Has name) (value : Value) :
    (vs.set name value).headers = vs.headers := by
  obtain ⟨i, -, hi⟩ := set_of_has h value
  rw [hi, headers_storeAt]

theorem headers_set_of_not_has {vs : Variables} {name : String} (h : ¬ vs.Has name)
    (value : Value) :
    (vs.set name value).headers = vs.headers ++ [⟨name, value.kind, none, false⟩] := by
  rw [set_of_not_has h, headers, List.map_append]
  rfl

@[simp] theorem headers_reset (vs : Variables) : vs.reset.headers = vs.headers := by
  simp only [headers, reset, List.map_map]
  exact List.map_congr_left fun v _ => v.header_reset

theorem headers_prefix_set (vs : Variables) (name : String) (value : Value) :
    vs.headers <+: (vs.set name value).headers := by
  by_cases h : vs.Has name
  · simp only [headers_set_of_has h, List.prefix_rfl]
  · rw [headers_set_of_not_has h]
    exact List.prefix_append _ _

/-! ### Resetting -/

/-- Tables with the same headers and the same retained variables start an observation alike. -/
theorem reset_congr {vs ws : Variables} (h : vs.headers = ws.headers)
    (hr : vs.entries.filter (·.retained) = ws.entries.filter (·.retained)) :
    vs.reset = ws.reset := by
  obtain ⟨l⟩ := vs
  obtain ⟨m⟩ := ws
  simp only [headers, reset, Variables.mk.injEq] at h hr ⊢
  induction l generalizing m with
  | nil =>
    obtain rfl : m = [] := by simpa using h.symm
    rfl
  | cons v l ih =>
    cases m with
    | nil => cases h
    | cons w m =>
      obtain ⟨hvw, hlm⟩ := List.cons.inj h
      have hret : v.retained = w.retained := congrArg Header.retained hvw
      cases hv : v.retained with
      | true =>
        rw [List.filter_cons_of_pos hv, List.filter_cons_of_pos (hret ▸ hv)] at hr
        obtain ⟨rfl, hr'⟩ := List.cons.inj hr
        rw [List.map_cons, List.map_cons, ih m hlm hr']
      | false =>
        rw [List.filter_cons_of_neg (by simp [hv]),
          List.filter_cons_of_neg (by simp [← hret, hv])] at hr
        rw [List.map_cons, List.map_cons, ih m hlm hr,
          Variable.reset_congr hvw fun ht => absurd ht (by simp [hv])]

theorem filter_retained_eq_nil_iff (vs : Variables) :
    vs.entries.filter (·.retained) = [] ↔ vs.headers.filter (·.retained) = [] := by
  rw [headers, List.filter_map, List.map_eq_nil_iff]
  rfl

/-! ### Finding variables -/

theorem index?_eq_findIdx? (vs : Variables) (name : String) :
    vs.index? name = vs.keys.findIdx? (· == Text.upper name) := by
  rw [keys, List.findIdx?_map]
  rfl

theorem entry_of_index? {vs : Variables} {name : String} {i : Nat} (h : vs.index? name = some i) :
    ∃ v, vs.entries[i]? = some v := by
  obtain ⟨hlt, -⟩ := List.findIdx?_eq_some_iff_getElem.mp h
  exact ⟨_, List.getElem?_eq_getElem hlt⟩

/-- The place that adding a variable gives is that of its name. -/
theorem index?_add (vs : Variables) (v : Variable) :
    (vs.add v).1.index? v.name = some (vs.add v).2 := by
  by_cases hn : vs.Has v.name
  · obtain ⟨i, hi⟩ := hn.index?
    simp only [add, hi]
  · have hb := (vs.index?_eq_none_iff v.name).mpr hn
    rw [add_of_not_has hn]
    simp only [index?] at hb ⊢
    simp [List.findIdx?_append, hb, v.key_eq, List.findIdx?_cons, size]

theorem upper_name_of_find? {vs : Variables} {name : String} {v : Variable}
    (h : vs.find? name = some v) : Text.upper v.name = Text.upper name := by
  unfold find? at h
  rw [← v.key_eq]
  simpa using List.find?_some h

theorem find?_header (vs : Variables) (name : String) :
    (vs.find? name).map Variable.header =
      vs.headers.find? fun h => Text.upper h.name == Text.upper name := by
  rw [headers, List.find?_map, find?]
  congr 2
  funext v
  simp only [Function.comp, v.key_eq]
  rfl

theorem find?_header_of_prefix {vs ws : Variables} (h : vs.headers <+: ws.headers) {name : String}
    {v : Variable} (hv : vs.find? name = some v) :
    ∃ w, ws.find? name = some w ∧ w.header = v.header := by
  obtain ⟨t, ht⟩ := h
  have hf : (ws.find? name).map Variable.header = some v.header := by
    rw [find?_header, ← ht, List.find?_append, ← find?_header, hv]
    rfl
  exact Option.map_eq_some_iff.mp hf

/-! ### Tables put together -/

theorem index?_append_of_has {base : Variables} {name : String} (h : base.Has name)
    (extra : List Variable) : index? ⟨base.entries ++ extra⟩ name = base.index? name := by
  obtain ⟨i, hi⟩ := h.index?
  rw [hi]
  simp only [index?] at hi ⊢
  rw [List.findIdx?_append, hi]
  rfl

/-- A value is stored into the front of a table if the front has a variable of the name. -/
theorem set_append_of_has {base : Variables} {name : String} (h : base.Has name)
    (extra : List Variable) (value : Value) :
    set ⟨base.entries ++ extra⟩ name value = ⟨(base.set name value).entries ++ extra⟩ := by
  obtain ⟨i, hi, -⟩ := set_of_has h value
  have hlt : i < base.entries.length := (List.findIdx?_eq_some_iff_findIdx_eq.mp hi).1
  have hle : i ≤ base.entries.length := by omega
  simp only [set, insert, add, index?_append_of_has h, hi, storeAt]
  rw [List.modify_eq_take_drop, List.modify_eq_take_drop, List.take_append_of_le_length hle,
    List.drop_append_of_le_length hle, List.append_assoc]
  cases hd : base.entries.drop i with
  | nil =>
    have := List.drop_eq_nil_iff.mp hd
    omega
  | cons v rest => rfl

/-- A value is stored behind the front of a table if the front has no variable of the name. -/
theorem set_append_of_not_has {base : Variables} {name : String} (h : ¬ base.Has name)
    (extra : List Variable) (value : Value) :
    set ⟨base.entries ++ extra⟩ name value =
      ⟨base.entries ++ (set ⟨extra⟩ name value).entries⟩ := by
  by_cases hx : Has ⟨extra⟩ name
  · obtain ⟨i, hi, -⟩ := set_of_has hx value
    have hb := (base.index?_eq_none_iff name).mpr h
    have hw : index? ⟨base.entries ++ extra⟩ name = some (i + base.entries.length) := by
      simp only [index?] at hi hb ⊢
      rw [List.findIdx?_append, hb, hi]
      rfl
    simp only [set, insert, add, hi, hw, storeAt, List.modify_eq_take_drop]
    rw [List.take_append, List.drop_append, List.take_of_length_le (Nat.le_add_left ..),
      List.drop_of_length_le (Nat.le_add_left ..), Nat.add_sub_cancel, List.append_assoc,
      List.nil_append]
  · have hw : ¬ Has ⟨base.entries ++ extra⟩ name := by
      rw [Has, keys, List.map_append, List.mem_append]
      exact not_or_intro h hx
    rw [set_of_not_has hw, set_of_not_has hx, List.append_assoc]

/-- A variable that stands behind the front of a table is not found by other names. -/
theorem get_append {base : Variables} {extra : List Variable} {name : String}
    (h : base.Has name ∨ ∀ v ∈ extra, v.key ≠ Text.upper name) :
    get ⟨base.entries ++ extra⟩ name = base.get name := by
  have hf : find? ⟨base.entries ++ extra⟩ name = base.find? name := by
    simp only [find?, List.find?_append]
    rcases h with h | h
    · obtain ⟨v, hv⟩ := Option.isSome_iff_exists.mp ((base.find?_isSome_iff name).mpr h)
      simp only [find?] at hv
      rw [hv]
      rfl
    · have hx : extra.find? (fun v => v.key == Text.upper name) = none := by
        simpa using h
      rw [hx, Option.or_none]
  rw [get, get, hf]

/-! ### Sound tables -/

/-- The names are distinct in any case of letters, and the values are of the kinds of their
variables. -/
structure Sound (vs : Variables) : Prop where
  nodup : vs.keys.Nodup
  typed : ∀ v ∈ vs.entries, v.Typed

theorem sound_empty : empty.Sound :=
  ⟨List.nodup_nil, by simp [empty]⟩

theorem typed_modify {l : List Variable} (h : ∀ v ∈ l, v.Typed) {g : Variable → Variable}
    (hg : ∀ v, v.Typed → (g v).Typed) (i : Nat) : ∀ v ∈ l.modify i g, v.Typed := by
  intro v hv
  obtain ⟨j, hj⟩ := List.mem_iff_getElem?.mp hv
  rw [List.getElem?_modify] at hj
  cases hl : l[j]? with
  | none => simp [hl] at hj
  | some w =>
    have hw : w.Typed := h w (List.mem_of_getElem? hl)
    by_cases hij : i = j
    · obtain rfl : g w = v := by simpa [hl, hij] using hj
      exact hg w hw
    · obtain rfl : w = v := by simpa [hl, hij] using hj
      exact hw

theorem Sound.modify {vs : Variables} (h : vs.Sound) {g : Variable → Variable}
    (hk : ∀ v, (g v).key = v.key) (hg : ∀ v, v.Typed → (g v).Typed) (i : Nat) :
    Sound ⟨vs.entries.modify i g⟩ := by
  refine ⟨?_, typed_modify h.typed hg i⟩
  rw [keys, map_modify hk]
  exact h.nodup

theorem Sound.append {vs : Variables} (h : vs.Sound) {v : Variable} (hn : ¬ vs.Has v.name)
    (hv : v.Typed) : Sound ⟨vs.entries ++ [v]⟩ := by
  constructor
  · simp only [keys, List.map_append, List.map_cons, List.map_nil]
    rw [Has, ← v.key_eq] at hn
    exact List.nodup_append.mpr ⟨h.nodup, by simp, by
      rintro a ha b hb rfl
      exact hn (List.mem_singleton.mp hb ▸ ha)⟩
  · intro w hw
    rcases List.mem_append.mp hw with hw | hw
    · exact h.typed w hw
    · rw [List.mem_singleton.mp hw]
      exact hv

theorem Sound.add {vs : Variables} (h : vs.Sound) {v : Variable} (hv : v.Typed) :
    (vs.add v).1.Sound := by
  by_cases hn : vs.Has v.name
  · rwa [add_of_has hn]
  · rw [add_of_not_has hn]
    exact h.append hn hv

theorem Sound.storeAt {vs : Variables} (h : vs.Sound) (i : Nat) (value : Value) :
    (vs.storeAt i value).Sound :=
  h.modify (fun v => v.key_store value) (fun v _ => v.typed_store value) i

theorem Sound.set {vs : Variables} (h : vs.Sound) (name : String) (value : Value) :
    (vs.set name value).Sound :=
  (h.add (v := { name, kind := value.kind }) (Value.kind_missingOf _)).storeAt _ _

theorem Sound.reset {vs : Variables} (h : vs.Sound) : vs.reset.Sound := by
  constructor
  · rw [keys_congr (headers_reset vs)]
    exact h.nodup
  · intro v hv
    obtain ⟨w, hw, rfl⟩ := List.mem_map.mp hv
    exact (h.typed w hw).reset

theorem Sound.findIdx?_keys {vs : Variables} (h : vs.Sound) (key : String) (i : Nat) :
    vs.keys.findIdx? (· == key) = some i ↔ vs.keys[i]? = some key := by
  have hfound {j : Nat} (hj : vs.keys.findIdx? (· == key) = some j) : vs.keys[j]? = some key := by
    obtain ⟨hlt, hkey, -⟩ := List.findIdx?_eq_some_iff_getElem.mp hj
    rw [List.getElem?_eq_getElem hlt, beq_iff_eq.mp hkey]
  constructor
  · exact hfound
  · intro hi
    cases hj : vs.keys.findIdx? (· == key) with
    | none => simpa using List.findIdx?_eq_none_iff.mp hj key (List.mem_of_getElem? hi)
    | some j =>
      have hlt : j < vs.keys.length := (List.findIdx?_eq_some_iff_getElem.mp hj).1
      rw [(List.getElem?_inj hlt h.nodup).mp ((hfound hj).trans hi.symm)]

/-- The index finds the one place of a name. -/
theorem Sound.index?_eq_some_iff {vs : Variables} (h : vs.Sound) (name : String) (i : Nat) :
    vs.index? name = some i ↔
      ∃ header, vs.headers[i]? = some header ∧ Text.upper header.name = Text.upper name := by
  rw [index?_eq_findIdx?, h.findIdx?_keys, keys_eq_map_headers, List.getElem?_map,
    Option.map_eq_some_iff]

theorem Sound.kind_get {vs : Variables} (h : vs.Sound) {name : String} {v : Variable}
    (hv : vs.find? name = some v) : (vs.get name).kind = v.kind := by
  rw [get, hv]
  exact h.typed v (List.mem_of_find?_eq_some hv)

end Variables

end StepLang
