import StepLang.Proofs.TableUpdates

/-! # Updates of the program data vector

Every update of a program data vector changes its parts one after the other. Whatever updates have
made a vector, the next one finds the parts in agreement and does not fail, and the vector stands
for the table that the same updates make.
-/

namespace StepLang

open Variables (Update)

def Variables.values (vs : Variables) : List Value := vs.entries.map Variable.value

namespace Pdv

variable {p q : Pdv} {vs : Variables}

theorem set_eq_self {α : Type} {l : List α} {i : Nat} {a : α} (h : l[i]? = some a) :
    l.set i a = l := by
  obtain ⟨hlt, rfl⟩ := List.getElem?_eq_some_iff.mp h
  exact List.set_getElem_self hlt

theorem replace?_of_getElem? {α : Type} {l : List α} {i : Nat} {a : α} (h : l[i]? = some a)
    (b : α) : replace? l i b = some (l.set i b) :=
  if_pos (List.getElem?_eq_some_iff.mp h).1

/-- Looking a name up before adding it makes no difference. -/
theorem set?_eq (p : Pdv) (name : String) (value : Value) :
    p.set? name value =
      ((p.add ⟨name, value.kind, none, false⟩).1.storeAt?
        (p.add ⟨name, value.kind, none, false⟩).2 value).map
          (·, (p.add ⟨name, value.kind, none, false⟩).2) := by
  unfold Pdv.set? Pdv.add
  cases p.place? name <;> rfl

theorem resetValues_entries (entries : List Variable) :
    resetValues (entries.map Variable.header) (entries.map Variable.value) =
      entries.map (Variable.value ∘ Variable.reset) := by
  induction entries with
  | nil => rfl
  | cons v entries ih =>
    rw [List.map_cons, List.map_cons, List.map_cons, resetValues, ih]
    congr 1
    rw [Function.comp_apply, Variable.reset]
    cases hr : v.retained <;> simp [Variable.header, hr]

/-! ### Vectors that stand for tables -/

/-- The parts of the vector hold what the entries of the table hold. -/
structure Represents (p : Pdv) (vs : Variables) : Prop where
  headers : p.headers = vs.headers
  values : p.values = vs.values
  index : ∀ key, p.index.entries.lookup key = vs.keys.findIdx? (· == key)

theorem represents_empty : Represents {} .empty := ⟨rfl, rfl, fun _ => rfl⟩

namespace Represents

theorem place? (h : p.Represents vs) (name : String) : p.place? name = vs.index? name := by
  rw [vs.index?_eq_findIdx?]
  exact h.index _

theorem valueAt (h : p.Represents vs) (i : Nat) : p.valueAt i = vs.valueAt i := by
  rw [Pdv.valueAt, h.values, Variables.values, List.getElem?_map, Variables.valueAt]
  cases vs.entries[i]? <;> rfl

theorem get (h : p.Represents vs) (name : String) : p.get name = vs.get name := by
  have hfind : vs.find? name = (vs.index? name).bind (vs.entries[·]?) :=
    List.find?_eq_bind_findIdx?_getElem?
  rw [Pdv.get, h.place?, Variables.get, hfind]
  cases vs.index? name with
  | none => rfl
  | some i => exact h.valueAt i

/-- At the place of a header there is an entry, and so there is a value. -/
theorem entry (h : p.Represents vs) {i : Nat} {header : Header}
    (hi : p.headers[i]? = some header) : ∃ v, vs.entries[i]? = some v ∧ v.header = header := by
  rwa [h.headers, Variables.headers, List.getElem?_map, Option.map_eq_some_iff] at hi

theorem getElem?_headers (h : p.Represents vs) {i : Nat} {v : Variable}
    (hv : vs.entries[i]? = some v) : p.headers[i]? = some v.header := by
  rw [h.headers, Variables.headers, List.getElem?_map, hv]
  rfl

theorem getElem?_values (h : p.Represents vs) {i : Nat} {v : Variable}
    (hv : vs.entries[i]? = some v) : p.values[i]? = some v.value := by
  rw [h.values, Variables.values, List.getElem?_map, hv]
  rfl

/-! ### One update -/

theorem append (h : p.Represents vs) {v : Variable} (hn : ¬ vs.Has v.name) :
    Represents
      { headers := p.headers ++ [v.header]
        values := p.values ++ [v.value]
        index := p.index.insert v.name vs.size } ⟨vs.entries ++ [v]⟩ where
  headers := by
    rw [h.headers, Variables.headers, Variables.headers, List.map_append]
    rfl
  values := by
    rw [h.values, Variables.values, Variables.values, List.map_append]
    rfl
  index key := by
    have hkeys : Variables.keys ⟨vs.entries ++ [v]⟩ = vs.keys ++ [Text.upper v.name] := by
      rw [Variables.keys, List.map_append, List.map_singleton, v.key_eq]
      rfl
    have hsize : vs.keys.length = vs.size := List.length_map _
    rw [hkeys, List.findIdx?_append, ← h.index, List.findIdx?_singleton, hsize]
    by_cases hk : Text.upper v.name = key
    · have hnone : p.index.entries.lookup key = none := by
        rw [← hk]
        exact (h.place? v.name).trans ((vs.index?_eq_none_iff v.name).mpr hn)
      subst hk
      simp [NameMap.insert, NameMap.lookup_insertEntry_self, hnone]
    · simp [NameMap.insert, NameMap.lookup_insertEntry_of_ne (Ne.symm hk), hk]

theorem add (h : p.Represents vs) (header : Header) :
    (p.add header).1.Represents (vs.add header.toVariable).1 ∧
      (p.add header).2 = (vs.add header.toVariable).2 := by
  have hplace : p.place? header.name = vs.index? header.toVariable.name := h.place? header.name
  unfold Pdv.add
  rw [hplace]
  cases hi : vs.index? header.toVariable.name with
  | some i =>
    rw [Variables.add, hi]
    exact ⟨h, rfl⟩
  | none =>
    have hn := (vs.index?_eq_none_iff _).mp hi
    have hsize : p.headers.length = vs.size := by
      rw [h.headers, Variables.headers, List.length_map, Variables.size]
    rw [Variables.add_of_not_has hn]
    dsimp only
    rw [hsize]
    exact ⟨h.append hn, rfl⟩

theorem modify (h : p.Represents vs) {g : Variable → Variable} (hg : ∀ v, (g v).key = v.key)
    {i : Nat} {v : Variable} (hv : vs.entries[i]? = some v)
    (hvariables : q.headers = p.headers.set i (g v).header)
    (hvalues : q.values = p.values.set i (g v).value) (hindex : q.index = p.index) :
    q.Represents ⟨vs.entries.modify i g⟩ where
  headers := by
    rw [hvariables, h.headers, Variables.headers, Variables.headers,
      Variables.map_modify_eq_set _ _ hv]
  values := by
    rw [hvalues, h.values, Variables.values, Variables.values, Variables.map_modify_eq_set _ _ hv]
  index key := by rw [hindex, h.index, Variables.keys, Variables.keys, Variables.map_modify hg]

theorem storeAt? (h : p.Represents vs) (i : Nat) (value : Value) :
    ∃ q, p.storeAt? i value = some q ∧ q.Represents (vs.storeAt i value) := by
  unfold Pdv.storeAt?
  cases hi : p.headers[i]? with
  | none =>
    have hlength : vs.entries.length ≤ i := by
      rwa [h.headers, Variables.headers, List.getElem?_eq_none_iff, List.length_map] at hi
    refine ⟨p, rfl, ?_⟩
    rw [Variables.storeAt, List.modify_eq_self hlength]
    exact h
  | some header =>
    obtain ⟨v, hv, rfl⟩ := h.entry hi
    refine ⟨{ p with values := p.values.set i (v.fit value) }, ?_, ?_⟩
    · dsimp only
      rw [replace?_of_getElem? (h.getElem?_values hv)]
      rfl
    · exact h.modify (fun v => v.key_store value) hv (set_eq_self hi).symm rfl rfl

theorem set? (h : p.Represents vs) (name : String) (value : Value) :
    ∃ q, p.set? name value = some (q, (vs.insert name value).2) ∧
      q.Represents (vs.set name value) := by
  obtain ⟨hadd, hplace⟩ := h.add ⟨name, value.kind, none, false⟩
  obtain ⟨q, hq, hr⟩ := hadd.storeAt? (vs.insert name value).2 value
  refine ⟨q, ?_, hr⟩
  rw [set?_eq, hplace]
  exact congrArg (Option.map (·, (vs.insert name value).2)) hq

theorem reset (h : p.Represents vs) : p.reset.Represents vs.reset where
  headers := h.headers.trans vs.headers_reset.symm
  values := by
    rw [Pdv.reset, h.headers, h.values]
    exact (resetValues_entries vs.entries).trans List.map_map.symm
  index key := by rw [Pdv.reset, h.index, Variables.keys_congr vs.headers_reset]

theorem retain? (h : p.Represents vs) (name : String) (retained : Bool) :
    ∃ q, p.retain? name retained = some (q, (vs.index? name).isSome) ∧
      q.Represents (vs.retain name retained) := by
  unfold Pdv.retain? Variables.retain
  rw [h.place?]
  cases hi : vs.index? name with
  | none => exact ⟨p, rfl, h⟩
  | some i =>
    obtain ⟨v, hv⟩ := Variables.entry_of_index? hi
    refine ⟨{ p with headers := p.headers.set i { v.header with retained } }, ?_, ?_⟩
    · dsimp only
      rw [h.getElem?_headers hv]
      rfl
    · exact h.modify (g := fun v => { v with retained }) (fun _ => rfl) hv rfl
        (set_eq_self (h.getElem?_values hv)).symm rfl

theorem declareAt? (h : p.Represents vs) {i : Nat} {v : Variable} (hv : vs.entries[i]? = some v)
    (kind : Kind) (n : Nat) :
    ∃ q, p.declareAt? i kind n = some q ∧
      q.Represents ⟨vs.entries.modify i (·.declareLength kind n)⟩ := by
  have hkey (w : Variable) : (w.declareLength kind n).key = w.key := w.key_declareLength kind n
  have hvalue := h.getElem?_values hv
  unfold Pdv.declareAt?
  rw [h.getElem?_headers hv]
  by_cases hk : v.kind = kind
  · refine ⟨_, if_pos hk, h.modify hkey hv ?_ ?_ rfl⟩
    · rw [v.header_declareLength]
    · rw [Variable.declareLength, if_pos hk, set_eq_self hvalue]
  · refine ⟨{ p with
        headers := p.headers.set i { v.header with kind, length := some n }
        values := p.values.set i (.missingOf kind) }, (if_neg hk).trans ?_,
      h.modify hkey hv ?_ ?_ rfl⟩
    · rw [replace?_of_getElem? hvalue]
      rfl
    · rw [v.header_declareLength]
    · rw [Variable.declareLength, if_neg hk]

theorem declareLength? (h : p.Represents vs) (name : String) (kind : Kind) (n : Nat) :
    ∃ q, p.declareLength? name kind n = some (q, (vs.declareLength name kind n).2) ∧
      q.Represents (vs.declareLength name kind n).1 := by
  obtain ⟨hadd, hplace⟩ := h.add ⟨name, kind, none, false⟩
  obtain ⟨v, hv⟩ := Variables.entry_of_index? (vs.index?_add { name, kind })
  obtain ⟨q, hq, hr⟩ := hadd.declareAt? hv kind n
  refine ⟨q, ?_, hr⟩
  unfold Pdv.declareLength?
  dsimp only
  rw [hplace]
  exact congrArg (Option.map (·, (vs.declareLength name kind n).2)) hq

end Represents

/-! ### Updates one after the other -/

def update? (p : Pdv) : Update → Option Pdv
  | .add h => some (p.add h).1
  | .storeAt i value => p.storeAt? i value
  | .set name value => (p.set? name value).map Prod.fst
  | .reset => some p.reset
  | .retain name retained => (p.retain? name retained).map Prod.fst
  | .declareLength name kind length => (p.declareLength? name kind length).map Prod.fst

def ofUpdates? (us : List Update) : Option Pdv := us.foldlM update? {}

/-- An update of a vector succeeds, and stands for the update of the table. -/
theorem Represents.update? (h : p.Represents vs) (u : Update) :
    ∃ q, p.update? u = some q ∧ q.Represents (vs.update u) := by
  cases u with
  | add header => exact ⟨_, rfl, (h.add header).1⟩
  | storeAt i value => exact h.storeAt? i value
  | set name value =>
    obtain ⟨q, hq, hr⟩ := h.set? name value
    exact ⟨q, congrArg (Option.map Prod.fst) hq, hr⟩
  | reset => exact ⟨_, rfl, h.reset⟩
  | retain name retained =>
    obtain ⟨q, hq, hr⟩ := h.retain? name retained
    exact ⟨q, congrArg (Option.map Prod.fst) hq, hr⟩
  | declareLength name kind length =>
    obtain ⟨q, hq, hr⟩ := h.declareLength? name kind length
    exact ⟨q, congrArg (Option.map Prod.fst) hq, hr⟩

theorem Represents.updates (h : p.Represents vs) (us : List Update) :
    ∃ q, us.foldlM Pdv.update? p = some q ∧ q.Represents (us.foldl Variables.update vs) := by
  induction us generalizing p vs with
  | nil => exact ⟨p, rfl, h⟩
  | cons u us ih =>
    obtain ⟨r, hr, hrep⟩ := h.update? u
    obtain ⟨q, hq, hrep⟩ := ih hrep
    refine ⟨q, ?_, hrep⟩
    rw [List.foldlM_cons, hr]
    exact hq

theorem represents_ofUpdates (us : List Update) :
    ∃ p, ofUpdates? us = some p ∧ p.Represents (Variables.ofUpdates us) :=
  represents_empty.updates us

/-! ### The agreement of the parts -/

/-- The names as they were first spelled, in the order of their places. -/
def names (p : Pdv) : List String := p.headers.map Header.name

/-- The parts agree: there is a value for each variable, of its kind, and the index gives a place
to the upper case of the name there, and to nothing else. -/
structure Aligned (p : Pdv) : Prop where
  length : p.values.length = p.headers.length
  kind : ∀ (i : Nat) h value, p.headers[i]? = some h → p.values[i]? = some value →
    value.kind = h.kind
  index : ∀ key i, p.index.entries.lookup key = some i ↔
    ∃ h, p.headers[i]? = some h ∧ Text.upper h.name = key
  distinct : (p.names.map Text.upper).Nodup

theorem Represents.names (h : p.Represents vs) : p.names = vs.names := by
  rw [Pdv.names, h.headers, Variables.names]

theorem Represents.aligned (h : p.Represents vs) (hs : vs.Sound) : p.Aligned where
  length := by
    rw [h.values, h.headers, Variables.values, Variables.headers, List.length_map,
      List.length_map]
  kind i header value hheader hvalue := by
    obtain ⟨v, hv, rfl⟩ := h.entry hheader
    obtain rfl := Option.some.inj ((h.getElem?_values hv).symm.trans hvalue)
    exact hs.typed v (List.mem_of_getElem? hv)
  index key i := by
    rw [h.index, hs.findIdx?_keys, vs.keys_eq_map_headers, ← h.headers, List.getElem?_map,
      Option.map_eq_some_iff]
  distinct := by
    rw [h.names, vs.map_upper_names]
    exact hs.nodup

/-! ### What an update leaves -/

theorem storeAt?_eq_some {i : Nat} {value : Value} (h : p.storeAt? i value = some q) :
    q.headers = p.headers ∧ q.index = p.index ∧ ∀ j ≠ i, q.values[j]? = p.values[j]? := by
  unfold storeAt? at h
  split at h
  · obtain ⟨values, hvalues, hq⟩ := Option.bind_eq_some_iff.mp h
    obtain rfl := Option.some.inj hq
    unfold replace? at hvalues
    split at hvalues
    · obtain rfl := Option.some.inj hvalues
      exact ⟨rfl, rfl, fun j hj => List.getElem?_set_ne (Ne.symm hj)⟩
    · cases hvalues
  · obtain rfl := Option.some.inj h
    exact ⟨rfl, rfl, fun j _ => rfl⟩

theorem getElem?_resetValues {headers : List Header} {values : List Value} {i : Nat} {h : Header}
    (hi : headers[i]? = some h) :
    (resetValues headers values)[i]? =
      values[i]?.map fun v => if h.retained then v else .missingOf h.kind := by
  induction headers generalizing values i with
  | nil => cases hi
  | cons header headers ih =>
    cases values with
    | nil => rfl
    | cons v values =>
      cases i with
      | zero =>
        obtain rfl := Option.some.inj hi
        rfl
      | succ i => exact ih hi

/-- Where the parts agree, the start of an observation leaves the retained values and makes the
others the missing ones of their kinds. -/
theorem Aligned.getElem?_reset (hp : p.Aligned) {i : Nat} {h : Header}
    (hi : p.headers[i]? = some h) :
    p.reset.values[i]? = if h.retained then p.values[i]? else some (.missingOf h.kind) := by
  obtain ⟨v, hv⟩ : ∃ v, p.values[i]? = some v := by
    have hlt : i < p.values.length := by
      rw [hp.length]
      exact (List.getElem?_eq_some_iff.mp hi).1
    exact ⟨_, List.getElem?_eq_getElem hlt⟩
  rw [reset, getElem?_resetValues hi, hv]
  cases h.retained <;> rfl

/-- Whatever updates are done, none of them fails, and the vector that they make stands for the
table that they make. Its variables, values and index of names agree, and no further update changes
the place or the spelling of a name. A value stored at a place leaves all else, and the start of an
observation leaves the retained values and makes the others the missing ones of their kinds. -/
theorem updates_keep_aligned (us : List Update) :
    ∃ p, ofUpdates? us = some p ∧ p.Aligned ∧ p.Represents (Variables.ofUpdates us) ∧
      (∀ more, ∃ q, ofUpdates? (us ++ more) = some q ∧ p.names <+: q.names) ∧
      (∀ i value, ∃ q, p.storeAt? i value = some q ∧ q.headers = p.headers ∧
        q.index = p.index ∧ ∀ j ≠ i, q.values[j]? = p.values[j]?) ∧
      p.reset.headers = p.headers ∧ p.reset.index = p.index ∧
      ∀ (i : Nat) h, p.headers[i]? = some h →
        p.reset.values[i]? = if h.retained then p.values[i]? else some (.missingOf h.kind) := by
  obtain ⟨p, hp, hr⟩ := represents_ofUpdates us
  have ha : p.Aligned := hr.aligned (Variables.sound_empty.updates us)
  refine ⟨p, hp, ha, hr, fun more => ?_, fun i value => ?_, rfl, rfl, fun i h hi => ?_⟩
  · obtain ⟨q, hq, hr'⟩ := represents_ofUpdates (us ++ more)
    refine ⟨q, hq, ?_⟩
    rw [hr.names, hr'.names, Variables.ofUpdates, Variables.ofUpdates, List.foldl_append]
    exact Variables.names_prefix_updates _ more
  · obtain ⟨q, hq, -⟩ := hr.storeAt? i value
    exact ⟨q, hq, storeAt?_eq_some hq⟩
  · exact ha.getElem?_reset hi

end Pdv

end StepLang
