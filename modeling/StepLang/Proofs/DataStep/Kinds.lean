import StepLang.Proofs.DataStep.Contexts
import StepLang.Proofs.DataStep.Copying
import StepLang.Proofs.Summary

/-! # The kinds of expressions

The kind of an expression is guessed before it has a value, from its outermost part. The guess is
right wherever the expression has a value: operators and functions give values of one kind each, and
the values of variables are of their kinds in every context of a step.
-/

namespace StepLang

open DataStep

/-! ### What operators and functions give -/

namespace Value

@[simp] theorem kind_number (x : Float) : (number x).kind = .numeric := rfl

@[simp] theorem kind_text (s : String) : (text s).kind = .character := rfl

@[simp] theorem kind_missing : missing.kind = .numeric := rfl

@[simp] theorem kind_ofBool (b : Bool) : (ofBool b).kind = .numeric := rfl

@[simp] theorem kind_ofNat (n : Nat) : (ofNat n).kind = .numeric := rfl

@[simp] theorem kind_finite (x : Float) : (finite x).kind = .numeric := by
  unfold finite
  split <;> rfl

end Value

@[simp] theorem BinaryOp.kind_arithmetic (f : Float → Float → Float) (v w : Value) :
    (arithmetic f v w).kind = .numeric := by
  simp only [arithmetic, apply_ite Value.kind, Value.kind_missing, Value.kind_finite, ite_self]

theorem BinaryOp.kind_apply (op : BinaryOp) (v w : Value) :
    (op.apply v w).kind = if op = .concat then .character else .numeric := by
  cases op <;> simp [apply]

theorem UnaryOp.kind_apply (op : UnaryOp) (v : Value) : (op.apply v).kind = .numeric := by
  cases op <;> rfl

namespace Arity

theorem eq_of_exactly {n count : Nat} (h : (exactly n).refusal? count = none) : count = n := by
  simpa [refusal?] using h

theorem le_of_between {low high count : Nat} (h : (between low high).refusal? count = none) :
    low ≤ count ∧ count ≤ high := by
  simp only [refusal?] at h
  split at h
  · cases h
  · split at h
    · cases h
    · omega

end Arity

namespace Function

def resultKind : Function → Kind
  | CAT | CATS | COMPRESS | LEFT | LOWCASE | RIGHT | STRIP | SUBSTR | TRIM | UPCASE => .character
  | _ => .numeric

@[simp] theorem kind_mapNumber (f : Float → Float) (v : Value) :
    (mapNumber f v).kind = .numeric := by
  simp only [mapNumber, apply_ite Value.kind, Value.kind_missing, Value.kind_finite, ite_self]

@[simp] theorem kind_mapPositive (f : Float → Float) (v : Value) :
    (mapPositive f v).kind = .numeric :=
  kind_mapNumber _ v

@[simp] theorem kind_roundTo (places : Int) (v : Value) : (roundTo places v).kind = .numeric := by
  simp only [roundTo, kind_mapNumber]

@[simp] theorem kind_modulo (v w : Value) : (modulo v w).kind = .numeric := by
  simp only [modulo, apply_ite Value.kind, Value.kind_missing, kind_mapNumber, ite_self]

@[simp] theorem kind_reduce (f : Float → Float → Float) (xs : List Float) :
    (reduce f xs).kind = .numeric := by
  cases xs <;> rfl

@[simp] theorem kind_sum (args : List Value) : (sum args).kind = .numeric := by
  unfold sum
  split <;> rfl

@[simp] theorem kind_mean (args : List Value) : (mean args).kind = .numeric := by
  unfold mean
  split <;> rfl

@[simp] theorem kind_mdy (month day year : Value) : (mdy month day year).kind = .numeric := by
  simp only [mdy, apply_ite Value.kind, Value.kind_missing, Value.kind_number, ite_self]

@[simp] theorem kind_datePart (part : Int → Int) (v : Value) :
    (datePart part v).kind = .numeric := by
  unfold datePart
  split <;> rfl

theorem kind_apply_numeric (today : Int) {f : Function} (h : f.resultKind = .numeric)
    (args : List Value) : (f.apply today args).kind = .numeric := by
  unfold apply
  split
  -- the equations of functions with a text are left, and their result is of the other kind
  all_goals first | (simp [apply_ite Value.kind]; done) | cases h

/-- A function with texts gives one for every count of arguments that it takes. -/
theorem kind_apply_character (today : Int) {f : Function} (h : f.resultKind = .character)
    {args : List Value} (hr : f.arity.refusal? args.length = none) :
    (f.apply today args).kind = .character := by
  cases f with
  | CAT | CATS => rfl
  | LEFT | LOWCASE | RIGHT | STRIP | TRIM | UPCASE =>
    obtain ⟨s, rfl⟩ := List.length_eq_one_iff.mp (Arity.eq_of_exactly hr)
    rfl
  | COMPRESS =>
    obtain ⟨hlow, hhigh⟩ := Arity.le_of_between hr
    rcases args with _ | ⟨s, _ | ⟨removed, _ | ⟨t, rest⟩⟩⟩
    · cases hlow
    · rfl
    · rfl
    · simp only [List.length_cons] at hhigh
      omega
  | SUBSTR =>
    obtain ⟨hlow, hhigh⟩ := Arity.le_of_between hr
    rcases args with _ | ⟨s, _ | ⟨position, _ | ⟨length, _ | ⟨t, rest⟩⟩⟩⟩
    · cases hlow
    · simp at hlow
    · rfl
    · rfl
    · simp only [List.length_cons] at hhigh
      omega
  | _ => cases h

theorem isCharacterFunction_iff {name : String} {f : Function} (h : ofName? name = some f) :
    isCharacterFunction name = true ↔ f.resultKind = .character := by
  have hname : f.name = Text.upper name := by
    simpa [ofName?] using List.find?_some h
  rw [isCharacterFunction, ← hname]
  cases f <;> simp [Function.name, resultKind]

theorem kind_call {today : Int} {name : String} {args : List Value} {v : Value}
    (h : call today name args = .ok v) :
    v.kind = if isCharacterFunction name then .character else .numeric := by
  unfold call at h
  split at h
  · cases h
  · next f hf =>
    split at h
    · cases h
    · next hr =>
      obtain rfl := Except.ok.inj h
      cases hk : f.resultKind with
      | character =>
        rw [if_pos ((isCharacterFunction_iff hf).mpr hk)]
        exact kind_apply_character today hk hr
      | numeric =>
        have hnot : ¬ isCharacterFunction name = true := by
          rw [isCharacterFunction_iff hf, hk]
          exact Kind.noConfusion
        rw [if_neg hnot]
        exact kind_apply_numeric today hk args

end Function

/-! ### What evaluation gives -/

section Evaluation

variable {scope : Scope} {v : Value}

theorem kind_macroValue (text : String) :
    (macroValue text).kind =
      if (Number.read? (Text.trim text)).isSome then .numeric else .character := by
  delta macroValue
  cases Number.read? (Text.trim text) <;> rfl

theorem kind_evaluate_binary {op : BinaryOp} {left right : Expression}
    (h : evaluate scope (.binary op left right) = .ok v) :
    v.kind = if op = .concat then .character else .numeric := by
  cases op with
  | and =>
    simp only [evaluate, bind_eq_ok_iff] at h
    obtain ⟨w, -, h⟩ := h
    split at h
    · obtain ⟨u, -, h⟩ := bind_eq_ok_iff.mp h
      obtain rfl := Except.ok.inj h
      rfl
    · obtain rfl := Except.ok.inj h
      rfl
  | or =>
    simp only [evaluate, bind_eq_ok_iff] at h
    obtain ⟨w, -, h⟩ := h
    split at h
    · obtain rfl := Except.ok.inj h
      rfl
    · obtain ⟨u, -, h⟩ := bind_eq_ok_iff.mp h
      obtain rfl := Except.ok.inj h
      rfl
  | _ =>
    simp only [evaluate, bind_eq_ok_iff] at h
    obtain ⟨w, -, u, -, h⟩ := h
    obtain rfl := Except.ok.inj h
    exact BinaryOp.kind_apply _ w u

theorem kind_evaluate_unary {op : UnaryOp} {operand : Expression}
    (h : evaluate scope (.unary op operand) = .ok v) : v.kind = .numeric := by
  simp only [evaluate, bind_eq_ok_iff] at h
  obtain ⟨w, -, h⟩ := h
  obtain rfl := Except.ok.inj h
  exact UnaryOp.kind_apply op w

theorem kind_dimension {args : List Expression} (h : dimension scope args = .ok v) :
    v.kind = .numeric := by
  unfold dimension at h
  split at h
  · split at h
    · obtain rfl := Except.ok.inj h
      rfl
    · cases h
  · cases h

theorem kind_evaluate_call {function : String} {args : List Expression}
    (h : evaluate scope (.call function args) = .ok v) :
    v.kind = if isCharacterFunction function then .character else .numeric := by
  unfold evaluate at h
  split at h
  · next hdim =>
    have hupper : Text.upper function = Text.upper "dim" := Text.sameName_iff.mp hdim
    have hnot : isCharacterFunction function = false := by
      rw [isCharacterFunction, hupper]
      decide +kernel
    rw [hnot]
    exact kind_dimension h
  · obtain ⟨values, -, h⟩ := bind_eq_ok_iff.mp h
    exact Function.kind_call h

end Evaluation

/-! ### The guess and the value -/

mutual

def Expression.macroNames : Expression → List String
  | .macroRef name => [name]
  | .binary _ left right => left.macroNames ++ right.macroNames
  | .unary _ operand => operand.macroNames
  | .call _ args => Expression.allMacroNames args
  | .element _ index => index.macroNames
  | _ => []

def Expression.allMacroNames : List Expression → List String
  | [] => []
  | e :: es => e.macroNames ++ Expression.allMacroNames es

end

namespace DataStep.Plan

variable {setting : Setting} {p : Plan} {n : Nat} {v : Value}

/-- The variables that an array stands for are of the kind of the array. -/
def UniformArrays (p : Plan) : Prop :=
  ∀ array a, p.arrays.find? array = some a →
    ∀ x ∈ a.vars, ∀ w, p.vars.find? x = some w → w.kind = a.kind

/-- No variable for texts has the name of the counter. -/
def NumericCounter (p : Plan) : Prop :=
  ∀ w, p.vars.find? "_N_" = some w → w.kind = .numeric

theorem Occurs.kind_ref (hp : p.Occurs setting) (hc : p.NumericCounter) (name : String) :
    (((p.step setting).scope n p.vars).value name).kind = p.inferKind setting (.ref name) := by
  by_cases hn : isCounter name = true
  · have hvalue : ((p.step setting).scope n p.vars).value name = .ofNat n := if_pos hn
    have hfind : p.vars.find? name = p.vars.find? "_N_" := by
      have hupper : Text.upper "_n_" = Text.upper "_N_" := by
        simp [Text.upper, ← String.toList_inj]
      simp only [Variables.find?, isCounter_iff.mp hn, hupper]
    rw [hvalue, inferKind, hfind, Value.kind_ofNat]
    split
    · next w hw => exact (hc w hw).symm
    · rfl
  · have hvalue : ((p.step setting).scope n p.vars).value name = p.vars.get name := if_neg hn
    rw [hvalue, inferKind]
    split
    · next w hw => exact hp.sound.kind_get hw
    · next hw =>
      rw [Variables.get, hw]
      rfl

theorem Occurs.kind_element (hp : p.Occurs setting) (ha : p.UniformArrays) {array : String}
    {index : Expression}
    (h : evaluate ((p.step setting).scope n p.vars) (.element array index) = .ok v) :
    v.kind = p.inferKind setting (.element array index) := by
  simp only [evaluate, bind_eq_ok_iff] at h
  obtain ⟨w, -, i, -, h⟩ := h
  obtain ⟨x, hx, h⟩ := bind_eq_ok_iff.mp h
  obtain rfl := Except.ok.inj h
  obtain ⟨a, hfind, hmem⟩ := Exec.mem_of_elementVariable hx
  have hfind : p.arrays.find? array = some a := hfind
  obtain ⟨u, hu⟩ := Option.isSome_iff_exists.mp
    ((p.vars.find?_isSome_iff x).mpr (hp.has_element hfind hmem))
  simp only [inferKind, hfind]
  exact (hp.sound.kind_get hu).trans (ha array a hfind x hmem u hu)

theorem kind_eq_inferKind (hp : p.Occurs setting) (ha : p.UniformArrays) (hc : p.NumericCounter)
    {e : Expression} (hm : ∀ name ∈ e.macroNames, (setting.macroText? name).isSome = true)
    (hv : evaluate ((p.step setting).scope n p.vars) e = .ok v) :
    v.kind = p.inferKind setting e := by
  cases e with
  | number x =>
    obtain rfl := Except.ok.inj hv
    rfl
  | text s =>
    obtain rfl := Except.ok.inj hv
    rfl
  | missing =>
    obtain rfl := Except.ok.inj hv
    rfl
  | ref name =>
    obtain rfl := Except.ok.inj hv
    exact hp.kind_ref hc name
  | macroRef name =>
    obtain ⟨text, htext⟩ := Option.isSome_iff_exists.mp (hm name (List.mem_singleton_self name))
    have hscope : ((p.step setting).scope n p.vars).macroText? name = some text := htext
    simp only [evaluate, hscope] at hv
    obtain rfl := Except.ok.inj hv
    simp only [inferKind, htext]
    exact kind_macroValue text
  | binary op left right =>
    rw [kind_evaluate_binary hv]
    cases op <;> rfl
  | unary op operand => exact kind_evaluate_unary hv
  | call function args => exact kind_evaluate_call hv
  | element array index => exact hp.kind_element ha hv

/-- The kind that is guessed for an expression in a context is that of its value in this context, if
all its macro variables are defined, the elements of arrays have the kinds of their arrays, and the
counter has no variable for texts of its name. So a variable of the guessed kind keeps the value as
it is. -/
theorem inferKind_sound (hp : p.Occurs setting) (ha : p.UniformArrays) (hc : p.NumericCounter)
    {e : Expression} (hm : ∀ name ∈ e.macroNames, (setting.macroText? name).isSome = true)
    (hv : evaluate ((p.step setting).scope n p.vars) e = .ok v) :
    v.kind = p.inferKind setting e ∧ v.convert (p.inferKind setting e) = v ∧
      ∀ w : Variable, w.kind = p.inferKind setting e → w.length = none → w.fit v = v := by
  have hkind := kind_eq_inferKind hp ha hc hm hv
  have hconvert := Value.convert_of_kind hkind
  refine ⟨hkind, hconvert, fun w hw hl => ?_⟩
  simp only [Variable.fit, hw, hconvert, hl]

/-! ### A step over names -/

/-- An array of two texts, the first of which has a value. -/
def namesPlan : Plan :=
  let declared := declareArray {} "part" .character ["first", "last"]
  { declared with vars := declared.vars.set "first" (.text "Ada") }

def twoLetters : Setting :=
  { Setting.reading visits [] with macroText? := fun _ => some "2" }

/-- The first letters of an element, as many as a macro variable says. -/
def initials : Expression :=
  .call "SUBSTR" [.element "part" (.number 1.0), .number 1.0, .macroRef "width"]

theorem occurs_namesPlan : namesPlan.Occurs twoLetters :=
  (Occurs.empty.declare (s := .array "part" (.fixed 2) .character ["first", "last"]) rfl).store
    "first" (.text "Ada")

theorem uniformArrays_namesPlan : namesPlan.UniformArrays := by
  intro array a ha x hx w hw
  have harrays : namesPlan.arrays =
      NameMap.insert {} "part" ⟨["first", "last"], .character⟩ := rfl
  rw [harrays] at ha
  by_cases hn : Text.upper array = Text.upper "part"
  · rw [NameMap.find?_insert_of_eq _ hn] at ha
    obtain rfl := Option.some.inj ha
    have hkinds : ∀ x ∈ ["first", "last"],
        (namesPlan.vars.find? x).map (·.kind) = some .character := by
      decide +kernel
    have hkind := hkinds x hx
    rw [hw] at hkind
    exact Option.some.inj hkind
  · rw [NameMap.find?_insert_of_ne _ hn] at ha
    cases ha

theorem inferKind_sound_initials :
    namesPlan.Occurs twoLetters ∧ namesPlan.UniformArrays ∧ namesPlan.NumericCounter ∧
      (∀ name ∈ initials.macroNames, (twoLetters.macroText? name).isSome = true) ∧
      evaluate ((namesPlan.step twoLetters).scope 1 namesPlan.vars) initials = .ok (.text "Ad") ∧
      namesPlan.inferKind twoLetters initials = .character ∧
      (Value.text "Ad").convert (namesPlan.inferKind twoLetters initials) = .text "Ad" := by
  have hcounter : namesPlan.NumericCounter := by
    intro w hw
    have hnone : namesPlan.vars.find? "_N_" = none := by decide +kernel
    rw [hnone] at hw
    cases hw
  have hmacros : ∀ name ∈ initials.macroNames, (twoLetters.macroText? name).isSome = true :=
    fun _ _ => rfl
  have hvalue : evaluate ((namesPlan.step twoLetters).scope 1 namesPlan.vars) initials =
      .ok (.text "Ad") := by
    decide +kernel
  obtain ⟨hkind, hconvert, -⟩ :=
    inferKind_sound occurs_namesPlan uniformArrays_namesPlan hcounter hmacros hvalue
  exact ⟨occurs_namesPlan, uniformArrays_namesPlan, hcounter, hmacros, hvalue, hkind.symm, hconvert⟩

end DataStep.Plan

end StepLang
