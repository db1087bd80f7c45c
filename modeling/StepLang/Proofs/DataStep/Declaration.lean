import StepLang.Proofs.DataStep.Fragment
import StepLang.Proofs.TableUpdates

/-! # What a step declares

Reading a body declares its parts one after the other. What one part adds to a plan is said once;
what the whole body adds follows by going through the parts.
-/

namespace StepLang

/-! ### What a statement names by itself -/

namespace StepStatement

def kept : StepStatement → List String
  | .keep names => names
  | _ => []

def dropped : StepStatement → List String
  | .drop names => names
  | _ => []

def isOutput : StepStatement → Bool
  | .output _ => true
  | _ => false

def fields : StepStatement → List InputField
  | .input fields => fields
  | _ => []

def sources : StepStatement → List DatasetRef
  | .set refs | .merge refs => refs
  | _ => []

def isInput (s : StepStatement) : Bool :=
  !s.sources.isEmpty || !s.fields.isEmpty

def sourceColumns (setting : DataStep.Setting) (r : DatasetRef) : List String :=
  match setting.dataset r with
  | .ok d => d.columns
  | .error _ => []

/-- The variables that a statement declares by itself. -/
def declared (setting : DataStep.Setting) : StepStatement → List String
  | .set refs | .merge refs => refs.flatMap (sourceColumns setting)
  | .input fields => fields.map (·.name)
  | .array _ _ _ vars => vars
  | .retain items => items.map (·.name)
  | .length items => items.map (·.name)
  | .assign (.ref name) _ => if DataStep.isCounter name then [] else [name]
  | .iterate index .. => [index]
  | _ => []

end StepStatement

namespace DataStep

theorem isCounter_iff {name : String} :
    isCounter name = true ↔ Text.upper name = Text.upper "_n_" :=
  Text.sameName_iff

namespace Plan

/-- Adds what a statement declares by itself, the statements inside it left out. -/
def declareOwn (setting : Setting) (p : Plan) : StepStatement → Except Error Plan
  | .branch .. | .loop .. | .block _ => .ok p
  | .iterate index .. => .ok (p.declareVariable index .numeric)
  | s => declare setting p s

theorem declareOwn_simple (setting : Setting) (p : Plan) {s : StepStatement}
    (h : s.isSimple = true) : declareOwn setting p s = declare setting p s := by
  cases s <;> first | rfl | cases h

end Plan

/-- Reading a fragment is reading its parts one after the other. -/
theorem Fragment.declare_eq_foldlM (setting : Setting) (p : Plan) (fragment : Fragment) :
    fragment.declare setting p = fragment.parts.foldlM (Plan.declareOwn setting) p := by
  induction fragment using induct generalizing p with
  | simple s hs =>
    rw [parts_simple hs, List.foldlM_cons, Plan.declareOwn_simple setting p hs]
    simp [declare]
  | branch c s o ihs iho =>
    simp only [declare] at ihs iho ⊢
    simp only [Plan.declare, ihs, iho, parts_branch, List.foldlM_cons, List.foldlM_append]
    rfl
  | iterate index first last increment body ih =>
    simp only [declare] at ih ⊢
    simp only [Plan.declare, ih, parts_iterate, List.foldlM_cons]
    rfl
  | loop test body ih =>
    simp only [declare] at ih ⊢
    simp only [Plan.declare, ih, parts_loop, List.foldlM_cons]
    rfl
  | block body ih =>
    simp only [declare] at ih ⊢
    simp only [Plan.declare, ih, parts_block, List.foldlM_cons]
    rfl
  | nil =>
    rw [parts_nil]
    rfl
  | cons s rest ihs ihr =>
    simp only [declare] at ihs ihr ⊢
    simp only [Plan.declareAll, ihs, ihr, parts_cons, List.foldlM_append]
  | none =>
    rw [parts_none]
    rfl
  | otherwise s ih =>
    simp only [declare] at ih ⊢
    simp only [Plan.declareOthers, ih, parts_otherwise]
  | elseIf c s o ihs iho =>
    simp only [declare] at ihs iho ⊢
    simp only [Plan.declareOthers, ihs, iho, parts_elseIf, List.foldlM_append]

/-! ### What one part adds -/

theorem bind_eq_ok_iff {ε α β : Type} {x : Except ε α} {f : α → Except ε β} {b : β} :
    (x >>= f) = .ok b ↔ ∃ a, x = .ok a ∧ f a = .ok b := by
  cases x with
  | error e => simp [bind, Except.bind]
  | ok a => simp [bind, Except.bind]

/-- What reading a statement, the statements inside it left out, makes of a plan. -/
structure Plan.Adds (setting : Setting) (s : StepStatement) (p q : Plan) : Prop where
  grows : p.vars.Grows q.vars
  declared : ∀ name ∈ s.declared setting, q.vars.Has name
  arrays : ∀ name a, q.arrays.find? name = some a →
    p.arrays.find? name = some a ∨ ∀ v ∈ a.vars, q.vars.Has v
  keep : q.keep = p.keep ++ s.kept
  drop : q.drop = p.drop ++ s.dropped
  output : q.explicitOutput = (p.explicitOutput || s.isOutput)
  inputs : ∀ i ∈ q.inputs, i ∈ p.inputs ∨ ∀ c ∈ i.2.columns, q.vars.Has c
  sources : ∀ i ∈ q.inputs, i ∈ p.inputs ∨ i.1 ∈ s.sources ∧ setting.dataset i.1 = .ok i.2
  fields : q.fields = p.fields ++ s.fields
  hasSet : s.isInput = false → q.hasSet = p.hasSet
  hasMerge : s.isInput = false → q.hasMerge = p.hasMerge

namespace Plan

theorem foldl_declareVariable {α : Type} (f : α → String) (k : α → Kind) (l : List α) (p : Plan) :
    l.foldl (fun p a => p.declareVariable (f a) (k a)) p =
      { p with vars := l.foldl (fun vs a => vs.declare (f a) (k a)) p.vars } := by
  induction l generalizing p with
  | nil => rfl
  | cons a l ih =>
    rw [List.foldl_cons, ih]
    rfl

theorem declareColumns_eq (p : Plan) (d : Dataset) :
    p.declareColumns d =
      { p with vars := d.columns.foldl (fun vs c => vs.declare c (columnKind d c)) p.vars } :=
  foldl_declareVariable id (columnKind d) d.columns p

theorem grows_declareAll {α : Type} (f : α → String) (k : α → Kind) (l : List α)
    (vs : Variables) :
    vs.Grows (l.foldl (fun vs a => vs.declare (f a) (k a)) vs) ∧
      ∀ a ∈ l, (l.foldl (fun vs a => vs.declare (f a) (k a)) vs).Has (f a) :=
  Variables.grows_foldl (fun vs a => vs.grows_declare (f a) (k a))
    (fun vs a => vs.has_declare (f a) (k a)) l vs

theorem readInputs_ok {setting : Setting} {p q : Plan} {refs : List DatasetRef}
    (h : readInputs setting p refs = .ok q) :
    ∃ vars inputs, q = { p with vars, inputs := p.inputs ++ inputs } ∧ p.vars.Grows vars ∧
      (∀ i ∈ inputs, ∀ c ∈ i.2.columns, vars.Has c) ∧
      (∀ i ∈ inputs, i.1 ∈ refs ∧ setting.dataset i.1 = .ok i.2) ∧
      ∀ r ∈ refs, ∀ c ∈ StepStatement.sourceColumns setting r, vars.Has c := by
  induction refs generalizing p with
  | nil =>
    simp only [readInputs, Except.ok.injEq] at h
    subst h
    exact ⟨p.vars, [], by simp, .refl _, by simp, by simp, by simp⟩
  | cons r refs ih =>
    obtain ⟨d, hd, h⟩ := bind_eq_ok_iff.mp h
    rw [declareColumns_eq] at h
    obtain ⟨vars, inputs, rfl, hg, hi, hs, hr⟩ := ih h
    obtain ⟨hc, hn⟩ := grows_declareAll id (columnKind d) d.columns p.vars
    have hd' : ∀ c ∈ d.columns, vars.Has c := fun c hm => hg.has (hn c hm)
    refine ⟨vars, (r, d) :: inputs, by simp, hc.trans hg, ?_, ?_, ?_⟩
    · intro i hm
      rcases List.mem_cons.mp hm with rfl | hm
      · exact hd'
      · exact hi i hm
    · intro i hm
      rcases List.mem_cons.mp hm with rfl | hm
      · exact ⟨List.mem_cons_self, hd⟩
      · exact ⟨List.mem_cons_of_mem _ (hs i hm).1, (hs i hm).2⟩
    · intro r' hm
      rcases List.mem_cons.mp hm with rfl | hm
      · simpa only [StepStatement.sourceColumns, hd] using hd'
      · exact hr r' hm

theorem grows_declareRetained (p : Plan) (item : RetainItem) :
    ∃ vars, declareRetained p item = { p with vars } ∧ p.vars.Grows vars ∧ vars.Has item.name := by
  have hd := p.vars.grows_declare item.name (item.initial.elim .numeric Value.kind)
  have hr := ((p.vars.declare item.name (item.initial.elim .numeric Value.kind)).grows_retain
    item.name true)
  have hn := hr.has (p.vars.has_declare item.name (item.initial.elim .numeric Value.kind))
  unfold declareRetained
  cases hi : item.initial with
  | none =>
    rw [hi] at hd hr hn
    exact ⟨_, rfl, hd.trans hr, hn⟩
  | some v =>
    rw [hi] at hd hr hn
    exact ⟨_, rfl, (hd.trans hr).trans (Variables.grows_set _ item.name v),
      (Variables.grows_set _ item.name v).has hn⟩

theorem grows_retainAll (p : Plan) (items : List RetainItem) :
    ∃ vars, items.foldl declareRetained p = { p with vars } ∧ p.vars.Grows vars ∧
      ∀ i ∈ items, vars.Has i.name := by
  induction items generalizing p with
  | nil => exact ⟨p.vars, rfl, .refl _, by simp⟩
  | cons item items ih =>
    obtain ⟨vars, hp, hg, hn⟩ := p.grows_declareRetained item
    obtain ⟨vars', hp', hg', hn'⟩ := ih { p with vars }
    refine ⟨vars', by rw [List.foldl_cons, hp, hp'], hg.trans hg', fun i hm => ?_⟩
    rcases List.mem_cons.mp hm with rfl | hm
    · exact hg'.has hn
    · exact hn' i hm

/-- A statement that changes the table only, and declares its names, adds to the plan. -/
theorem adds_vars {setting : Setting} {s : StepStatement} {p : Plan} {vars : Variables}
    (hg : p.vars.Grows vars) (hd : ∀ name ∈ s.declared setting, vars.Has name)
    (hk : s.kept = []) (hr : s.dropped = []) (ho : s.isOutput = false) (hf : s.fields = []) :
    Adds setting s p { p with vars } where
  grows := hg
  declared := hd
  arrays _ _ h := Or.inl h
  keep := by rw [hk, List.append_nil]
  drop := by rw [hr, List.append_nil]
  output := by rw [ho, Bool.or_false]
  inputs _ h := Or.inl h
  sources _ h := Or.inl h
  fields := by rw [hf, List.append_nil]
  hasSet _ := rfl
  hasMerge _ := rfl

theorem adds_nothing {setting : Setting} {s : StepStatement} (p : Plan)
    (hd : s.declared setting = []) (hk : s.kept = []) (hr : s.dropped = [])
    (ho : s.isOutput = false) (hf : s.fields = []) : Adds setting s p p :=
  adds_vars (.refl _) (by simp [hd]) hk hr ho hf

/-- Reading the inputs of a statement adds to the plan, whichever flags are set behind it. -/
theorem adds_inputs {setting : Setting} {s : StepStatement} {p q : Plan} {refs : List DatasetRef}
    (h : readInputs setting p refs = .ok q) (hs : s.sources = refs)
    (hd : s.declared setting = refs.flatMap (StepStatement.sourceColumns setting))
    (hk : s.kept = []) (hr : s.dropped = []) (ho : s.isOutput = false) (hf : s.fields = [])
    (set merge : Bool) (hset : refs = [] → set = p.hasSet)
    (hmerge : refs = [] → merge = p.hasMerge) :
    Adds setting s p { q with hasSet := set, hasMerge := merge } := by
  obtain ⟨vars, inputs, rfl, hg, hi, hd', hc⟩ := readInputs_ok h
  have hn : s.isInput = false → refs = [] := by
    simp [StepStatement.isInput, hs, hf]
  refine ⟨hg, ?_, fun _ _ h => Or.inl h, by simp [hk], by simp [hr], by simp [ho], ?_, ?_,
    by simp [hf], fun h => hset (hn h), fun h => hmerge (hn h)⟩
  · intro name hm
    rw [hd] at hm
    obtain ⟨r, hr, hm⟩ := List.mem_flatMap.mp hm
    exact hc r hr name hm
  · intro i hm
    rcases List.mem_append.mp hm with hm | hm
    · exact Or.inl hm
    · exact Or.inr (hi i hm)
  · intro i hm
    rw [hs]
    exact (List.mem_append.mp hm).imp_right (hd' i)

theorem adds_array (setting : Setting) (p : Plan) (name : String) (size : ArraySize) (kind : Kind)
    (vars : List String) :
    Adds setting (.array name size kind vars) p (p.declareArray name kind vars) := by
  obtain ⟨hg, hn⟩ := grows_declareAll id (fun _ => kind) vars p.vars
  have hp : vars.foldl (fun p v => p.declareVariable v kind) p = { p with vars := _ } :=
    foldl_declareVariable id (fun _ => kind) vars p
  have h : Adds setting (.array name size kind vars) p { p with vars := _ } :=
    adds_vars hg hn rfl rfl rfl rfl
  rw [declareArray, hp]
  refine { h with arrays := fun other a ha => ?_ }
  by_cases hk : Text.upper other = Text.upper name
  · rw [NameMap.find?_insert_of_eq _ hk] at ha
    obtain rfl := Option.some.inj ha
    exact Or.inr hn
  · rw [NameMap.find?_insert_of_ne _ hk] at ha
    exact Or.inl ha

theorem adds_input (setting : Setting) (p : Plan) (fields : List InputField) :
    Adds setting (.input fields) p
      { p with
        vars := fields.foldl (fun vs f => vs.declare f.name f.kind) p.vars
        fields := p.fields ++ fields } := by
  obtain ⟨hg, hn⟩ := grows_declareAll InputField.name InputField.kind fields p.vars
  refine ⟨hg, ?_, fun _ _ h => Or.inl h, by simp [StepStatement.kept],
    by simp [StepStatement.dropped], by simp [StepStatement.isOutput], fun _ h => Or.inl h,
    fun _ h => Or.inl h, by simp [StepStatement.fields], fun _ => rfl, fun _ => rfl⟩
  intro name hm
  obtain ⟨f, hf, rfl⟩ := List.mem_map.mp hm
  exact hn f hf

theorem adds_assign {setting : Setting} {p q : Plan} {target : Target} {value : Expression}
    (h : declareOwn setting p (.assign target value) = .ok q) :
    Adds setting (.assign target value) p q := by
  cases target with
  | element array index =>
    obtain rfl := Except.ok.inj h
    exact adds_nothing p rfl rfl rfl rfl rfl
  | ref name =>
    obtain rfl := Except.ok.inj h
    by_cases hc : isCounter name = true
    · rw [if_pos hc]
      exact adds_nothing p (if_pos hc) rfl rfl rfl rfl
    · rw [if_neg hc]
      refine adds_vars (p.vars.grows_declare name _) (fun other hm => ?_) rfl rfl rfl rfl
      rw [StepStatement.declared, if_neg hc] at hm
      obtain rfl := List.mem_singleton.mp hm
      exact p.vars.has_declare other _

theorem declareOwn_adds {setting : Setting} {p q : Plan} {s : StepStatement}
    (h : declareOwn setting p s = .ok q) : Adds setting s p q := by
  cases s with
  | set refs =>
    obtain ⟨q', hq, h⟩ := bind_eq_ok_iff.mp h
    obtain rfl := Except.ok.inj h
    obtain ⟨vars, inputs, rfl, -⟩ := readInputs_ok hq
    exact adds_inputs hq rfl rfl rfl rfl rfl rfl _ _ (by rintro rfl; simp) (fun _ => rfl)
  | merge refs =>
    obtain ⟨q', hq, h⟩ := bind_eq_ok_iff.mp h
    obtain rfl := Except.ok.inj h
    obtain ⟨vars, inputs, rfl, -⟩ := readInputs_ok hq
    exact adds_inputs hq rfl rfl rfl rfl rfl rfl _ _ (fun _ => rfl) (by rintro rfl; simp)
  | assign target value => exact adds_assign h
  | array name size kind vars =>
    obtain rfl := Except.ok.inj h
    exact adds_array setting p name size kind vars
  | input fields =>
    obtain rfl := Except.ok.inj h
    have hp : fields.foldl (fun p f => p.declareVariable f.name f.kind) p = { p with vars := _ } :=
      foldl_declareVariable InputField.name InputField.kind fields p
    rw [hp]
    exact adds_input setting p fields
  | retain items =>
    obtain ⟨vars, hp, hg, hn⟩ := p.grows_retainAll items
    obtain rfl := Except.ok.inj h
    rw [hp]
    refine adds_vars hg (fun name hm => ?_) rfl rfl rfl rfl
    obtain ⟨i, hi, rfl⟩ := List.mem_map.mp hm
    exact hn i hi
  | length items =>
    obtain rfl := Except.ok.inj h
    obtain ⟨hg, hn⟩ := Variables.grows_foldl (f := LengthItem.name)
      (fun vs i => vs.grows_declareLength i.name i.kind i.length)
      (fun vs i => vs.has_declareLength i.name i.kind i.length) items p.vars
    refine adds_vars hg (fun name hm => ?_) rfl rfl rfl rfl
    obtain ⟨i, hi, rfl⟩ := List.mem_map.mp hm
    exact hn i hi
  | iterate index first last increment body =>
    obtain rfl := Except.ok.inj h
    refine adds_vars (p.vars.grows_declare index .numeric) (fun name hm => ?_) rfl rfl rfl rfl
    obtain rfl := List.mem_singleton.mp hm
    exact p.vars.has_declare name .numeric
  | output names =>
    obtain ⟨-, -, h⟩ := bind_eq_ok_iff.mp h
    obtain rfl := Except.ok.inj h
    exact ⟨.refl _, by simp [StepStatement.declared], fun _ _ h => Or.inl h,
      by simp [StepStatement.kept], by simp [StepStatement.dropped],
      by simp [StepStatement.isOutput], fun _ h => Or.inl h, fun _ h => Or.inl h,
      by simp [StepStatement.fields], fun _ => rfl, fun _ => rfl⟩
  | keep names | drop names | groupBy names | dataLines names =>
    obtain rfl := Except.ok.inj h
    exact ⟨.refl _, by simp [StepStatement.declared], fun _ _ h => Or.inl h,
      by simp [StepStatement.kept], by simp [StepStatement.dropped],
      by simp [StepStatement.isOutput], fun _ h => Or.inl h, fun _ h => Or.inl h,
      by simp [StepStatement.fields], fun _ => rfl, fun _ => rfl⟩
  | branch | loop | block | subset | delete | stop =>
    obtain rfl := Except.ok.inj h
    exact adds_nothing p rfl rfl rfl rfl rfl

/-! ### What a body adds -/

/-- What a plan holds when some statements have been read into it. -/
structure Describes (setting : Setting) (parts : List StepStatement) (p : Plan) : Prop where
  vars : p.vars.Sound
  declared : ∀ s ∈ parts, ∀ name ∈ s.declared setting, p.vars.Has name
  arrays : ∀ name a, p.arrays.find? name = some a → ∀ v ∈ a.vars, p.vars.Has v
  inputs : ∀ i ∈ p.inputs, ∀ c ∈ i.2.columns, p.vars.Has c
  sources : ∀ i ∈ p.inputs, ∃ s ∈ parts, i.1 ∈ s.sources ∧ setting.dataset i.1 = .ok i.2
  keep : p.keep = parts.flatMap StepStatement.kept
  drop : p.drop = parts.flatMap StepStatement.dropped
  output : p.explicitOutput = parts.any StepStatement.isOutput
  fields : p.fields = parts.flatMap StepStatement.fields
  noInput : parts.all (! ·.isInput) = true → p.hasSet = false ∧ p.hasMerge = false

variable {setting : Setting} {p q : Plan}

theorem describes_empty (setting : Setting) : Describes setting [] {} where
  vars := Variables.sound_empty
  declared := by simp
  arrays := by simp [NameMap.find?]
  inputs := by simp
  sources := by simp
  keep := rfl
  drop := rfl
  output := rfl
  fields := rfl
  noInput _ := ⟨rfl, rfl⟩

theorem Describes.add {parts : List StepStatement} {s : StepStatement}
    (h : Describes setting parts p) (ha : Adds setting s p q) :
    Describes setting (parts ++ [s]) q where
  vars := ha.grows.sound h.vars
  declared t ht name hn := by
    rcases List.mem_append.mp ht with ht | ht
    · exact ha.grows.has (h.declared t ht name hn)
    · obtain rfl := List.mem_singleton.mp ht
      exact ha.declared name hn
  arrays name a hf v hv := by
    rcases ha.arrays name a hf with hf | hn
    · exact ha.grows.has (h.arrays name a hf v hv)
    · exact hn v hv
  inputs i hi c hc := by
    rcases ha.inputs i hi with hi | hn
    · exact ha.grows.has (h.inputs i hi c hc)
    · exact hn c hc
  sources i hi := by
    rcases ha.sources i hi with hi | hn
    · obtain ⟨t, ht, hr⟩ := h.sources i hi
      exact ⟨t, List.mem_append_left _ ht, hr⟩
    · exact ⟨s, List.mem_append_right _ (List.mem_singleton_self s), hn⟩
  keep := by simp [ha.keep, h.keep]
  drop := by simp [ha.drop, h.drop]
  output := by simp [ha.output, h.output]
  fields := by simp [ha.fields, h.fields]
  noInput hn := by
    simp only [List.all_append, List.all_cons, List.all_nil, Bool.and_true, Bool.and_eq_true,
      Bool.not_eq_true'] at hn
    obtain ⟨hs, hm⟩ := h.noInput hn.1
    exact ⟨(ha.hasSet hn.2).trans hs, (ha.hasMerge hn.2).trans hm⟩

theorem Describes.foldlM {parts rest : List StepStatement} (h : Describes setting parts p)
    (hq : rest.foldlM (declareOwn setting) p = .ok q) :
    Describes setting (parts ++ rest) q := by
  induction rest generalizing parts p with
  | nil =>
    obtain rfl := Except.ok.inj hq
    rwa [List.append_nil]
  | cons s rest ih =>
    rw [List.foldlM_cons] at hq
    obtain ⟨p', hp, hq⟩ := bind_eq_ok_iff.mp hq
    have := ih (h.add (declareOwn_adds hp)) hq
    rwa [List.append_assoc] at this

/-- A table that grows leaves the plan a description of the same statements. -/
theorem Describes.mono {parts : List StepStatement} (h : Describes setting parts p)
    {vars : Variables} (hg : p.vars.Grows vars) : Describes setting parts { p with vars } :=
  { h with
    vars := hg.sound h.vars
    declared := fun s hs name hn => hg.has (h.declared s hs name hn)
    arrays := fun name a hf v hv => hg.has (h.arrays name a hf v hv)
    inputs := fun i hi c hc => hg.has (h.inputs i hi c hc) }

/-- The name is that of the counter, of an array, or of a variable of the plan. -/
def Knows (p : Plan) (name : String) : Prop :=
  isCounter name = true ∨ (p.arrays.find? name).isSome = true ∨ p.vars.Has name

theorem declareReference_eq (p : Plan) (log : List LogLine) (name : String) :
    ∃ vars, (declareReference (p, log) name).1 = { p with vars } ∧ p.vars.Grows vars ∧
      Knows { p with vars } name := by
  simp only [declareReference]
  by_cases h : (isCounter name || (p.arrays.find? name).isSome || (p.vars.find? name).isSome) = true
  · rw [if_pos h]
    simp only [Bool.or_eq_true, Variables.find?_isSome_iff, or_assoc] at h
    exact ⟨p.vars, rfl, .refl _, h⟩
  · rw [if_neg h]
    exact ⟨_, rfl, p.vars.grows_declare name .numeric,
      Or.inr (Or.inr (p.vars.has_declare name .numeric))⟩

theorem declareReferences_eq (names : List String) (p : Plan) (log : List LogLine) :
    ∃ vars, (names.foldl declareReference (p, log)).1 = { p with vars } ∧ p.vars.Grows vars ∧
      ∀ name ∈ names, Knows { p with vars } name := by
  induction names generalizing p log with
  | nil => exact ⟨p.vars, rfl, .refl _, by simp⟩
  | cons name names ih =>
    obtain ⟨vars, hp, hg, hn⟩ := declareReference_eq p log name
    obtain ⟨vars', hp', hg', hn'⟩ := ih { p with vars } (declareReference (p, log) name).2
    refine ⟨vars', ?_, hg.trans hg', fun other hm => ?_⟩
    · rw [List.foldl_cons, ← hp', ← hp]
    · rcases List.mem_cons.mp hm with rfl | hm
      · exact hn.imp_right (Or.imp_right hg'.has)
      · exact hn' other hm

/-- The plan of a body describes its parts, and knows every name that they read. -/
theorem ofBody_describes {body : List StepStatement} {plan : Plan} {notes : List LogLine}
    (h : ofBody setting body = .ok (plan, notes)) :
    Describes setting (bodyParts body) plan ∧ ∀ name ∈ bodyReferences body, plan.Knows name := by
  obtain ⟨p, hp, h⟩ := bind_eq_ok_iff.mp h
  obtain ⟨vars, hv, hg, hn⟩ := declareReferences_eq (bodyReferences body) p []
  obtain ⟨rfl, -⟩ := Prod.mk.inj (Except.ok.inj h)
  have hd : Describes setting (bodyParts body) p := by
    have := Fragment.declare_eq_foldlM setting {} (.all body)
    exact (describes_empty setting).foldlM (this.symm.trans hp)
  rw [hv]
  exact ⟨hd.mono hg, hn⟩

end Plan

end DataStep

end StepLang
