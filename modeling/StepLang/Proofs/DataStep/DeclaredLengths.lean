import StepLang.Proofs.DataStep.Rectangular

/-! # Declared lengths

A text is cut when it is stored, and a LENGTH statement can stand anywhere in a step. The plan
takes the last length that is declared for a variable, and from then on every text that is stored
keeps to it. What was stored before is not cut: a RETAIN statement in front of a LENGTH statement
can leave a longer text, and nothing else can.
-/

namespace StepLang

/-- The RETAIN and LENGTH items of a statement by itself. -/
def StepStatement.items : StepStatement → List (RetainItem ⊕ LengthItem)
  | .retain items => items.map .inl
  | .length items => items.map .inr
  | _ => []

namespace DataStep

/-- The last item that declares the length of a variable. -/
def declaredLength? (items : List (RetainItem ⊕ LengthItem)) (name : String) : Option LengthItem :=
  ((items.filterMap Sum.getRight?).filter fun l => Text.sameName l.name name).getLast?

/-- The text is the front of an initial value that the variable is given. -/
def InitialText (items : List (RetainItem ⊕ LengthItem)) (name text : String) : Prop :=
  ∃ r, .inl r ∈ items ∧ Text.upper r.name = Text.upper name ∧
    ∃ initial s, r.initial = some initial ∧ initial.convert .character = .text s ∧
      text.toList <+: s.toList

/-- The text is the front of an initial value that the variable is given in front of a declaration
of its length. -/
def RetainedBefore (items : List (RetainItem ⊕ LengthItem)) (name text : String) : Prop :=
  ∃ front l back, items = front ++ .inr l :: back ∧ Text.upper l.name = Text.upper name ∧
    InitialText front name text

section Items

variable {items : List (RetainItem ⊕ LengthItem)} {name text : String} {l : LengthItem}

theorem declaredLength?_congr {other : String} (h : Text.upper name = Text.upper other) :
    declaredLength? items name = declaredLength? items other := by
  unfold declaredLength?
  congr 2
  funext l
  rw [Bool.eq_iff_iff, Text.sameName_iff, Text.sameName_iff, h]

theorem declaredLength?_append_retain (r : RetainItem) :
    declaredLength? (items ++ [.inl r]) name = declaredLength? items name := by
  have h : [Sum.inl r].filterMap Sum.getRight? = ([] : List LengthItem) := rfl
  rw [declaredLength?, declaredLength?, List.filterMap_append, h, List.append_nil]

theorem declaredLength?_append_same (h : Text.upper l.name = Text.upper name) :
    declaredLength? (items ++ [.inr l]) name = some l := by
  simp [declaredLength?, Text.sameName_iff.mpr h]

theorem declaredLength?_append_other (h : Text.upper l.name ≠ Text.upper name) :
    declaredLength? (items ++ [.inr l]) name = declaredLength? items name := by
  simp [declaredLength?, Bool.eq_false_iff.mpr (mt Text.sameName_iff.mp h)]

theorem mem_of_declaredLength? (h : declaredLength? items name = some l) :
    .inr l ∈ items ∧ Text.upper l.name = Text.upper name := by
  obtain ⟨hm, hn⟩ := List.mem_filter.mp (List.mem_of_getLast? h)
  obtain ⟨item, hi, hr⟩ := List.mem_filterMap.mp hm
  rw [Sum.getRight?_eq_some_iff.mp hr] at hi
  exact ⟨hi, Text.sameName_iff.mp hn⟩

theorem InitialText.append (h : InitialText items name text) (more) :
    InitialText (items ++ more) name text := by
  obtain ⟨r, hr, h⟩ := h
  exact ⟨r, List.mem_append_left _ hr, h⟩

theorem RetainedBefore.append (h : RetainedBefore items name text) (more) :
    RetainedBefore (items ++ more) name text := by
  obtain ⟨front, l, back, rfl, h⟩ := h
  exact ⟨front, l, back ++ more, by simp, h⟩

theorem RetainedBefore.congr (h : RetainedBefore items name text) {other : String}
    (hn : Text.upper name = Text.upper other) : RetainedBefore items other text := by
  obtain ⟨front, l, back, hi, hl, r, hr, hu, h⟩ := h
  exact ⟨front, l, back, hi, hl.trans hn, r, hr, hu.trans hn, h⟩

theorem InitialText.retainedBefore (h : InitialText items name text)
    (hl : Text.upper l.name = Text.upper name) : RetainedBefore (items ++ [.inr l]) name text :=
  ⟨items, l, [], rfl, hl, h⟩

end Items

/-! ### Texts that are stored -/

theorem fit_prefix {v : Variable} {value : Value} {text : String}
    (h : v.fit value = .text text) :
    ∃ s, value.convert .character = .text s ∧ text.toList <+: s.toList := by
  have hk : v.kind = .character := by rw [← v.kind_fit value, h]; rfl
  unfold Variable.fit at h
  rw [hk] at h
  split at h
  · next s n hs _ =>
    refine ⟨s, hs, ?_⟩
    split at h
    · obtain rfl := Value.text.inj h
      rw [String.toList_ofList]
      exact List.take_prefix n s.toList
    · obtain rfl := Value.text.inj h
      exact List.prefix_rfl
  · exact ⟨text, h, List.prefix_rfl⟩

theorem length_le_of_fit {v : Variable} {value : Value} {text : String} {n : Nat}
    (hn : v.length = some n) (h : v.fit value = .text text) : text.length ≤ n := by
  unfold Variable.fit at h
  rw [hn] at h
  split at h
  · next s m _ hm =>
    obtain rfl := Option.some.inj hm
    split at h
    · obtain rfl := Value.text.inj h
      simp only [String.length_ofList, List.length_take]
      omega
    · obtain rfl := Value.text.inj h
      omega
  · next hs => exact absurd rfl (hs _ _ h)

theorem eq_empty_of_missingOf {k : Kind} {text : String} (h : Value.missingOf k = .text text) :
    text = "" := by
  cases k with
  | numeric => cases h
  | character => exact (Value.text.inj h).symm

theorem kind_declareLength (v : Variable) (k : Kind) (n : Nat) :
    (v.declareLength k n).kind = k ∧ (v.declareLength k n).length = some n := by
  unfold Variable.declareLength
  split
  · next hk => exact ⟨hk, rfl⟩
  · exact ⟨rfl, rfl⟩

theorem text_declareLength {v : Variable} {k : Kind} {n : Nat} {text : String}
    (h : (v.declareLength k n).value = .text text) : v.value = .text text ∨ text = "" := by
  unfold Variable.declareLength at h
  split at h
  · exact Or.inl h
  · exact Or.inr (eq_empty_of_missingOf h)

/-- The text of a variable is no longer than its length, unless it was given before its length
was declared. -/
def WithinLength (items : List (RetainItem ⊕ LengthItem)) (v : Variable) : Prop :=
  ∀ n text, v.length = some n → v.value = .text text →
    text.length ≤ n ∨ RetainedBefore items v.name text

section WithinLength

variable {items : List (RetainItem ⊕ LengthItem)} {v : Variable}

theorem withinLength_store (v : Variable) (value : Value) : WithinLength items (v.store value) :=
  fun _ _ hn ht => Or.inl (length_le_of_fit (v := v) hn ht)

theorem withinLength_of_empty (h : ∀ text, v.value = .text text → text = "") :
    WithinLength items v := by
  intro n text _ ht
  rw [h text ht]
  exact Or.inl (Nat.zero_le n)

theorem WithinLength.append (h : WithinLength items v) (more) : WithinLength (items ++ more) v :=
  fun n text hn ht => (h n text hn ht).imp_right fun h => h.append more

theorem WithinLength.reset (h : WithinLength items v) : WithinLength items v.reset := by
  unfold Variable.reset
  split
  · exact h
  · exact withinLength_of_empty fun text ht => eq_empty_of_missingOf ht

end WithinLength

/-! ### The plan keeps declared lengths -/

/-- A table in which RETAIN and LENGTH items have been planned: a variable has the kind and the
length of the last item for it, and a text in it is the front of an initial value. -/
structure PlansItems (items : List (RetainItem ⊕ LengthItem)) (vs : Variables) : Prop where
  sound : vs.Sound
  has : ∀ l, .inr l ∈ items → vs.Has l.name
  declared : ∀ v ∈ vs.entries, ∀ l, declaredLength? items v.name = some l →
    v.kind = l.kind ∧ v.length = some l.length
  initial : ∀ v ∈ vs.entries, ∀ text, v.value = .text text →
    text = "" ∨ InitialText items v.name text
  within : ∀ v ∈ vs.entries, WithinLength items v

/-- What is true of an entry of a table after a change at the place of a name. -/
theorem forall_mem_modify {vs : Variables} (h : vs.Sound) {name : String} {i : Nat}
    (hi : vs.index? name = some i) {g : Variable → Variable} {P : Variable → Prop}
    (hother : ∀ v ∈ vs.entries, Text.upper v.name ≠ Text.upper name → P v)
    (hself : ∀ v ∈ vs.entries, Text.upper v.name = Text.upper name → P (g v)) :
    ∀ v ∈ vs.entries.modify i g, P v := by
  have hindex (j : Nat) {v : Variable} (hv : vs.entries[j]? = some v) :
      j = i ↔ Text.upper v.name = Text.upper name := by
    have hh : vs.headers[j]? = some v.header := by
      rw [Variables.headers, List.getElem?_map, hv]
      rfl
    constructor
    · rintro rfl
      obtain ⟨w, hw, hn⟩ := (h.index?_eq_some_iff name j).mp hi
      obtain rfl := Option.some.inj (hh.symm.trans hw)
      exact hn
    · intro hn
      have hj := (h.index?_eq_some_iff name j).mpr ⟨_, hh, hn⟩
      exact Option.some.inj (hj.symm.trans hi)
  intro w hw
  obtain ⟨j, hj⟩ := List.mem_iff_getElem?.mp hw
  rw [List.getElem?_modify] at hj
  cases hv : vs.entries[j]? with
  | none => simp [hv] at hj
  | some v =>
    have hm := List.mem_of_getElem? hv
    by_cases hij : i = j
    · obtain rfl : g v = w := by simpa [hv, hij] using hj
      exact hself v hm ((hindex j hv).mp hij.symm)
    · obtain rfl : v = w := by simpa [hv, hij] using hj
      exact hother v hm fun hn => hij ((hindex j hv).mpr hn).symm

namespace PlansItems

variable {items : List (RetainItem ⊕ LengthItem)} {vs : Variables}

theorem empty : PlansItems [] .empty where
  sound := Variables.sound_empty
  has := by simp
  declared := by simp [Variables.empty]
  initial := by simp [Variables.empty]
  within := by simp [Variables.empty]

theorem declare (h : PlansItems items vs) (name : String) (kind : Kind) :
    PlansItems items (vs.declare name kind) := by
  by_cases hn : vs.Has name
  · rwa [Variables.declare, Variables.add_of_has hn]
  · have hd : (vs.declare name kind).entries = vs.entries ++ [{ name := name, kind := kind }] := by
      rw [Variables.declare, Variables.add_of_not_has hn]
    refine ⟨(vs.grows_declare name kind).sound h.sound,
      fun l hl => (vs.grows_declare name kind).has (h.has l hl), ?_, ?_, ?_⟩
    all_goals
      rw [hd, List.forall_mem_append, List.forall_mem_singleton]
    · refine ⟨h.declared, fun l hl => ?_⟩
      obtain ⟨hm, hu⟩ := mem_of_declaredLength? hl
      have hl := h.has l hm
      rw [Variables.Has, hu] at hl
      exact absurd hl hn
    · exact ⟨h.initial, fun text ht => Or.inl (eq_empty_of_missingOf ht)⟩
    · exact ⟨h.within, withinLength_of_empty fun text ht => eq_empty_of_missingOf ht⟩

theorem foldl_declare {α : Type} (h : PlansItems items vs) (f : α → String) (k : α → Kind)
    (l : List α) : PlansItems items (l.foldl (fun vs a => vs.declare (f a) (k a)) vs) :=
  List.foldlRecOn l _ h fun _ h a _ => h.declare (f a) (k a)

theorem retain (h : PlansItems items vs) (name : String) (retained : Bool) :
    PlansItems items (vs.retain name retained) := by
  have hg := vs.grows_retain name retained
  unfold Variables.retain at hg ⊢
  split at hg
  · next i hi =>
    exact ⟨hg.sound h.sound, fun l hl => hg.has (h.has l hl),
      forall_mem_modify h.sound hi (fun v hv _ => h.declared v hv) fun v hv _ => h.declared v hv,
      forall_mem_modify h.sound hi (fun v hv _ => h.initial v hv) fun v hv _ => h.initial v hv,
      forall_mem_modify h.sound hi (fun v hv _ => h.within v hv) fun v hv _ => h.within v hv⟩
  · exact h

theorem append_retain (h : PlansItems items vs) (r : RetainItem) :
    PlansItems (items ++ [.inl r]) vs where
  sound := h.sound
  has l hl := h.has l (by simpa using hl)
  declared v hv l hl := h.declared v hv l (by rwa [declaredLength?_append_retain] at hl)
  initial v hv text ht := (h.initial v hv text ht).imp_right fun hi => hi.append _
  within v hv := (h.within v hv).append _

/-- The initial value of a variable is stored, cut to the length that is declared so far. -/
theorem set_initial (h : PlansItems items vs) {r : RetainItem} (hn : vs.Has r.name)
    {initial : Value} (hr : r.initial = some initial) :
    PlansItems (items ++ [.inl r]) (vs.set r.name initial) := by
  have hw := h.append_retain r
  obtain ⟨i, hi, hset⟩ := Variables.set_of_has hn initial
  have hg := vs.grows_set r.name initial
  rw [hset] at hg ⊢
  refine ⟨hg.sound hw.sound, fun l hl => hg.has (hw.has l hl), ?_, ?_, ?_⟩
  · exact forall_mem_modify h.sound hi (fun v hv _ => hw.declared v hv) fun v hv _ =>
      hw.declared v hv
  · refine forall_mem_modify h.sound hi (fun v hv _ => hw.initial v hv) fun v _ hu text ht => ?_
    obtain ⟨s, hs, hp⟩ := fit_prefix (v := v) ht
    exact Or.inr ⟨r, by simp, hu.symm, initial, s, hr, hs, hp⟩
  · exact forall_mem_modify h.sound hi (fun v hv _ => hw.within v hv) fun v _ _ =>
      withinLength_store v initial

theorem declareRetained {p : Plan} (h : PlansItems items p.vars) (r : RetainItem) :
    PlansItems (items ++ [.inl r]) (p.declareRetained r).vars := by
  have hd := (h.declare r.name (r.initial.elim .numeric Value.kind)).retain r.name true
  have hn := ((p.vars.declare r.name (r.initial.elim .numeric Value.kind)).grows_retain
    r.name true).has (p.vars.has_declare r.name _)
  unfold Plan.declareRetained
  cases hr : r.initial with
  | none =>
    rw [hr] at hd
    exact hd.append_retain r
  | some initial =>
    rw [hr] at hd hn
    exact hd.set_initial hn hr

/-- The last item for a variable gives it its kind and its length. A text that the variable has
already is not cut. -/
theorem declareLength (h : PlansItems items vs) (l : LengthItem) :
    PlansItems (items ++ [.inr l]) (vs.declareLength l.name l.kind l.length).1 := by
  have hd := h.declare l.name l.kind
  have hi := vs.index?_add { name := l.name, kind := l.kind }
  have hg := vs.grows_declareLength l.name l.kind l.length
  refine ⟨hg.sound h.sound, fun m hm => ?_, ?_, ?_, ?_⟩
  · rcases List.mem_append.mp hm with hm | hm
    · exact hg.has (h.has m hm)
    · obtain rfl := Sum.inr.inj (List.mem_singleton.mp hm)
      exact vs.has_declareLength m.name m.kind m.length
  · refine forall_mem_modify hd.sound hi (fun v hv hu m hm => ?_) fun v _ hu m hm => ?_
    · exact hd.declared v hv m (by rwa [declaredLength?_append_other (Ne.symm hu)] at hm)
    · rw [Variables.names_declareLength, declaredLength?_append_same hu.symm] at hm
      obtain rfl := Option.some.inj hm
      exact kind_declareLength v l.kind l.length
  · refine forall_mem_modify hd.sound hi (fun v hv _ text ht => ?_) fun v hv _ text ht => ?_
    · exact (hd.initial v hv text ht).imp_right fun hi => hi.append _
    · rw [Variables.names_declareLength]
      rcases text_declareLength ht with ht | ht
      · exact (hd.initial v hv text ht).imp_right fun hi => hi.append _
      · exact Or.inl ht
  · refine forall_mem_modify hd.sound hi (fun v hv _ => (hd.within v hv).append _)
      fun v hv hu n text hn ht => ?_
    rw [Variables.names_declareLength]
    have hempty (he : text = "") : text.length ≤ n := by rw [he]; exact Nat.zero_le n
    rcases text_declareLength ht with ht | ht
    · exact (hd.initial v hv text ht).imp hempty fun hi => hi.retainedBefore hu.symm
    · exact Or.inl (hempty ht)

variable {setting : Setting} {p q : Plan}

theorem readInputs (h : PlansItems items p.vars) {refs : List DatasetRef}
    (hq : p.readInputs setting refs = .ok q) : PlansItems items q.vars := by
  induction refs generalizing p with
  | nil =>
    obtain rfl := Except.ok.inj hq
    exact h
  | cons r refs ih =>
    obtain ⟨d, -, hq⟩ := bind_eq_ok_iff.mp hq
    rw [Plan.declareColumns_eq] at hq
    exact ih (h.foldl_declare id (Plan.columnKind d) d.columns) hq

theorem retainAll (h : PlansItems items p.vars) (rs : List RetainItem) :
    PlansItems (items ++ rs.map .inl) (rs.foldl Plan.declareRetained p).vars := by
  induction rs generalizing items p with
  | nil => simpa using h
  | cons r rs ih => simpa using ih (h.declareRetained r)

theorem declareLengths (h : PlansItems items vs) (ls : List LengthItem) :
    PlansItems (items ++ ls.map .inr)
      (ls.foldl (fun vs l => (vs.declareLength l.name l.kind l.length).1) vs) := by
  induction ls generalizing items vs with
  | nil => simpa using h
  | cons l ls ih => simpa using ih (h.declareLength l)

theorem declareOwn (h : PlansItems items p.vars) {s : StepStatement}
    (hq : Plan.declareOwn setting p s = .ok q) : PlansItems (items ++ s.items) q.vars := by
  have hnone (hs : s.items = []) (hv : PlansItems items q.vars) :
      PlansItems (items ++ s.items) q.vars := by rwa [hs, List.append_nil]
  cases s with
  | retain rs =>
    obtain rfl := Except.ok.inj hq
    exact h.retainAll rs
  | length ls =>
    obtain rfl := Except.ok.inj hq
    exact h.declareLengths ls
  | set refs | merge refs =>
    obtain ⟨q', hq', hq⟩ := bind_eq_ok_iff.mp hq
    obtain rfl := Except.ok.inj hq
    have hv : PlansItems items q'.vars := h.readInputs hq'
    exact hnone rfl hv
  | array name size kind vars =>
    obtain rfl := Except.ok.inj hq
    refine hnone rfl ?_
    have hp : vars.foldl (fun p v => p.declareVariable v kind) p = { p with vars := _ } :=
      Plan.foldl_declareVariable id (fun _ => kind) vars p
    rw [Plan.declareArray, hp]
    exact h.foldl_declare id (fun _ => kind) vars
  | input fields =>
    obtain rfl := Except.ok.inj hq
    refine hnone rfl ?_
    have hp : fields.foldl (fun p f => p.declareVariable f.name f.kind) p = { p with vars := _ } :=
      Plan.foldl_declareVariable InputField.name InputField.kind fields p
    rw [hp]
    exact h.foldl_declare InputField.name InputField.kind fields
  | assign target value =>
    refine hnone rfl ?_
    cases target with
    | element =>
      obtain rfl := Except.ok.inj hq
      exact h
    | ref name =>
      obtain rfl := Except.ok.inj hq
      split
      · exact h
      · exact h.declare name _
  | iterate index =>
    obtain rfl := Except.ok.inj hq
    exact hnone rfl (h.declare index .numeric)
  | output names =>
    obtain ⟨-, -, hq⟩ := bind_eq_ok_iff.mp hq
    obtain rfl := Except.ok.inj hq
    exact hnone rfl h
  | keep | drop | groupBy | dataLines | branch | loop | block | subset | delete | stop =>
    obtain rfl := Except.ok.inj hq
    exact hnone rfl h

theorem foldlM (h : PlansItems items p.vars) {parts : List StepStatement}
    (hq : parts.foldlM (Plan.declareOwn setting) p = .ok q) :
    PlansItems (items ++ parts.flatMap StepStatement.items) q.vars := by
  induction parts generalizing items p with
  | nil =>
    obtain rfl := Except.ok.inj hq
    rwa [List.flatMap_nil, List.append_nil]
  | cons s parts ih =>
    rw [List.foldlM_cons] at hq
    obtain ⟨p', hp, hq⟩ := bind_eq_ok_iff.mp hq
    rw [List.flatMap_cons, ← List.append_assoc]
    exact ih (h.declareOwn hp) hq

theorem declareReferences (h : PlansItems items p.vars) (names : List String)
    (log : List LogLine) :
    PlansItems items (names.foldl Plan.declareReference (p, log)).1.vars := by
  refine List.foldlRecOn names Plan.declareReference
    (motive := fun (q : Plan × List LogLine) => PlansItems items q.1.vars) h fun q h name _ => ?_
  simp only [Plan.declareReference]
  split
  · exact h
  · exact h.declare name .numeric

end PlansItems

def bodyItems (body : List StepStatement) : List (RetainItem ⊕ LengthItem) :=
  (bodyParts body).flatMap StepStatement.items

/-- The plan of a body plans its items. -/
theorem plansItems_of_ofBody {setting : Setting} {body : List StepStatement} {plan : Plan}
    {notes : List LogLine} (h : Plan.ofBody setting body = .ok (plan, notes)) :
    PlansItems (bodyItems body) plan.vars := by
  obtain ⟨p, hp, h⟩ := bind_eq_ok_iff.mp h
  obtain ⟨rfl, -⟩ := Prod.mk.inj (Except.ok.inj h)
  have hp : (bodyParts body).foldlM (Plan.declareOwn setting) {} = .ok p :=
    (Fragment.declare_eq_foldlM setting {} (.all body)).symm.trans hp
  exact (PlansItems.empty.foldlM hp).declareReferences (bodyReferences body) []

/-! ### The outputs keep declared lengths -/

section Run

variable {items : List (RetainItem ⊕ LengthItem)} {vs : Variables}

/-- Whatever is stored, texts stay within the lengths of their variables. -/
theorem withinLength_set (h : ∀ v ∈ vs.entries, WithinLength items v) (name : String)
    (value : Value) : ∀ v ∈ (vs.set name value).entries, WithinLength items v := by
  by_cases hn : vs.Has name
  · obtain ⟨i, -, hset⟩ := Variables.set_of_has hn value
    rw [hset]
    intro w hw
    obtain ⟨j, hj⟩ := List.mem_iff_getElem?.mp hw
    rw [Variables.storeAt, List.getElem?_modify] at hj
    cases hv : vs.entries[j]? with
    | none => simp [hv] at hj
    | some v =>
      have hm := List.mem_of_getElem? hv
      by_cases hij : i = j
      · obtain rfl : v.store value = w := by simpa [hv, hij] using hj
        exact withinLength_store v value
      · obtain rfl : v = w := by simpa [hv, hij] using hj
        exact h v hm
  · rw [Variables.set_of_not_has hn, List.forall_mem_append, List.forall_mem_singleton]
    exact ⟨h, withinLength_store _ value⟩

theorem withinLength_reset (h : ∀ v ∈ vs.entries, WithinLength items v) :
    ∀ v ∈ vs.reset.entries, WithinLength items v := by
  intro v hv
  obtain ⟨w, hw, rfl⟩ := List.mem_map.mp hv
  exact (h w hw).reset

end Run

variable {setting : Setting} {body : List StepStatement} {plan : Plan} {rows : List (Option Row)}

theorem history_withinLength (h : PlansItems (bodyItems body) plan.vars) :
    ∀ o ∈ plan.history setting body rows, ∀ v ∈ o.final.vars.entries,
      WithinLength (bodyItems body) v := by
  intro o ho
  have hk := history_keeps (J := fun vs => ∀ v ∈ vs.entries, WithinLength (bodyItems body) v)
    (fun _ _ _ hw => load_keeps (J := fun vs => ∀ v ∈ vs.entries, WithinLength (bodyItems body) v)
      (fun _ h => withinLength_reset h) (fun cell _ v _ h => withinLength_set h cell.1 v) hw)
    (fun _ _ name _ v _ hw => withinLength_set hw name v) h.within o ho
  exact hk.2

/-- A step writes texts that are no longer than the last declared length of their variable,
wherever it is declared, or else the front of an initial value that a RETAIN statement gave in
front of a LENGTH statement. -/
theorem outputs_keep_lengths {notes : List LogLine}
    (h : compile setting body = (notes, .ok (plan, rows))) :
    ∃ log outcome, runStep setting body = (log, .ok outcome) ∧
      ∀ out ∈ outcome.outputs, ∀ row ∈ out.2.rows, ∀ cell ∈ row, ∀ l,
        declaredLength? (bodyItems body) cell.1 = some l → l.kind = .character →
          ∃ text, cell.2 = .text text ∧
            (text.length ≤ l.length ∨ RetainedBefore (bodyItems body) cell.1 text) := by
  obtain ⟨⟨more, hp⟩, -⟩ := of_compile h
  obtain ⟨hd, -⟩ := Plan.ofBody_describes hp
  have hi := plansItems_of_ofBody hp
  obtain ⟨log, hrun⟩ := runStep_of_compile h
  refine ⟨log, _, hrun, ?_⟩
  intro out ho row hr cell hm l hl hk
  obtain ⟨o, hob, rfl⟩ := (mem_outputs ho).2 row hr
  obtain ⟨column, hcol, rfl⟩ := List.mem_map.mp hm
  obtain ⟨v, hv⟩ := Plan.exists_of_mem_columns hcol
  have hc := history_continues hd.vars o hob
  obtain ⟨w, hw, hh⟩ := Variables.find?_header_of_prefix hc.front hv
  -- the planned variable has the declared kind and length, and it has kept both
  obtain ⟨hkind, hlength⟩ := hi.declared v (List.mem_of_find?_eq_some hv) l
    (by rwa [declaredLength?_congr (Variables.upper_name_of_find? hv)])
  have hwk : w.kind = .character := (congrArg Header.kind hh).trans (hkind.trans hk)
  have hwl : w.length = some l.length := (congrArg Header.length hh).trans hlength
  have htext : ∃ text, w.value = .text text := by
    have ht : w.value.kind = w.kind := hc.sound.typed w (List.mem_of_find?_eq_some hw)
    cases hwv : w.value with
    | number x => rw [hwv, hwk] at ht; cases ht
    | text s => exact ⟨s, rfl⟩
  obtain ⟨text, ht⟩ := htext
  refine ⟨text, ?_, ?_⟩
  · simp only [Variables.get, hw, ht]
  · have hwithin := history_withinLength hi o hob w (List.mem_of_find?_eq_some hw) l.length text
      hwl ht
    exact hwithin.imp_right fun hb => hb.congr (Variables.upper_name_of_find? hw)

/-- Both lengths are declared behind what gives the variables their values: one is read from a data
set, the other one is retained. -/
def shortNames : List StepStatement :=
  [.retain [⟨"note", some (.text "abcdef")⟩], .set [⟨none, "visits"⟩],
    .length [⟨"who", .character, 2⟩, ⟨"note", .character, 3⟩]]

/-- The first row has a name that is cut and a note that is not. -/
theorem exists_row_shortNames {log : List LogLine} {outcome : Outcome}
    (h : runStep (Setting.reading visits ["out"]) shortNames = (log, .ok outcome)) :
    ∃ out ∈ outcome.outputs, ∃ row ∈ out.2.rows,
      ("who", .text "an") ∈ row ∧ ("note", .text "abcdef") ∈ row := by
  have hrows : (runStep (Setting.reading visits ["out"]) shortNames).2.toOption.map
      (·.outputs.map (·.2.rows)) =
      some [[[("note", .text "abcdef"), ("who", .text "an"), ("cost", .number 3.0)],
        [("note", .text "abcdef"), ("who", .text "bo"), ("cost", .missing)]]] := by
    decide +kernel
  rw [h] at hrows
  obtain ⟨out, _, ho, hr, -⟩ := List.map_eq_cons_iff.mp (Option.some.inj hrows)
  refine ⟨out, by simp [ho], [("note", .text "abcdef"), ("who", .text "an"), ("cost", .number 3.0)],
    by simp [hr], by simp, by simp⟩

theorem outputs_keep_lengths_shortNames : ∃ notes plan rows log outcome,
    compile (Setting.reading visits ["out"]) shortNames = (notes, .ok (plan, rows)) ∧
      runStep (Setting.reading visits ["out"]) shortNames = (log, .ok outcome) ∧
      ∃ out ∈ outcome.outputs, ∃ row ∈ out.2.rows, ("who", .text "an") ∈ row ∧
        declaredLength? (bodyItems shortNames) "who" = some ⟨"who", .character, 2⟩ ∧
        ∃ text, Value.text "an" = .text text ∧
          (text.length ≤ 2 ∨ RetainedBefore (bodyItems shortNames) "who" text) := by
  obtain ⟨notes, ⟨plan, rows⟩, h⟩ := exists_eq_of_isOk
    (show (compile (Setting.reading visits ["out"]) shortNames).2.isOk = true by decide +kernel)
  obtain ⟨log, outcome, hrun, hl⟩ := outputs_keep_lengths h
  obtain ⟨out, ho, row, hr, hwho, -⟩ := exists_row_shortNames hrun
  have hd : declaredLength? (bodyItems shortNames) "who" = some ⟨"who", .character, 2⟩ := by
    decide +kernel
  exact ⟨notes, plan, rows, log, outcome, h, hrun, out, ho, row, hr, hwho, hd,
    hl out ho row hr _ hwho _ hd rfl⟩

/-- The note was retained before its length was declared, and stays longer. -/
theorem retained_text_exceeds_length : ∃ log outcome,
    runStep (Setting.reading visits ["out"]) shortNames = (log, .ok outcome) ∧
      ¬ ∀ out ∈ outcome.outputs, ∀ row ∈ out.2.rows, ∀ cell ∈ row, ∀ l,
        declaredLength? (bodyItems shortNames) cell.1 = some l → l.kind = .character →
          ∃ text, cell.2 = .text text ∧ text.length ≤ l.length := by
  obtain ⟨log, outcome, h⟩ := exists_eq_of_isOk
    (show (runStep (Setting.reading visits ["out"]) shortNames).2.isOk = true by decide +kernel)
  refine ⟨log, outcome, h, fun hkept => ?_⟩
  obtain ⟨out, ho, row, hr, -, hnote⟩ := exists_row_shortNames h
  have hd : declaredLength? (bodyItems shortNames) "note" = some ⟨"note", .character, 3⟩ := by
    decide +kernel
  obtain ⟨text, ht, hle⟩ := hkept out ho row hr _ hnote _ hd rfl
  obtain rfl := Value.text.inj ht
  exact absurd hle (by decide)

end DataStep

end StepLang
