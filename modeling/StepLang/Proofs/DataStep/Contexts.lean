import StepLang.Proofs.DataStep.FixedTable
import StepLang.Proofs.PdvUpdates

/-! # The contexts of a step

While a step is read and while it runs, its expressions are seen in a context: what is declared so
far, and the variables with the values that they have then. A context is kept as a plan. Every
operation of a step on its plan or its variables leads from one context to another, so an invariant
of these operations holds wherever an expression can be looked at.
-/

namespace StepLang.DataStep

open Exec

/-- The plan, with the values of its variables, is a context of some step. -/
inductive Plan.Occurs (setting : Setting) : Plan → Prop where
  | empty : Occurs setting {}
  /-- A statement is read. -/
  | declare {p q s} : Occurs setting p → declareOwn setting p s = .ok q → Occurs setting q
  /-- A name that is read and assigned nowhere is declared behind all statements. -/
  | refer {p} (log : List LogLine) (name : String) :
      Occurs setting p → Occurs setting (declareReference (p, log) name).1
  /-- An observation starts. -/
  | reset {p} : Occurs setting p → Occurs setting { p with vars := p.vars.reset }
  /-- A cell is loaded, or a variable is assigned. -/
  | store {p} (name : String) (value : Value) :
      Occurs setting p → Occurs setting { p with vars := p.vars.set name value }

/-- The plan is a context when its variables are those of the table. -/
abbrev Plan.OccursWith (setting : Setting) (plan : Plan) (vs : Variables) : Prop :=
  Occurs setting { plan with vars := vs }

namespace Plan.Occurs

variable {setting : Setting} {p q plan : Plan} {body : List StepStatement}

theorem grows (h : p.Occurs setting) : Variables.empty.Grows p.vars := by
  induction h with
  | empty => exact .refl _
  | declare _ hq ih => exact ih.trans (declareOwn_adds hq).grows
  | @refer p log name _ ih =>
    obtain ⟨vars, hp, hg, -⟩ := declareReference_eq p log name
    rw [hp]
    exact ih.trans hg
  | reset _ ih => exact ih.trans (Variables.grows_reset _)
  | store name value _ ih => exact ih.trans (Variables.grows_set _ name value)

theorem sound (h : p.Occurs setting) : p.vars.Sound := h.grows.sound Variables.sound_empty

/-- The program data vector that the updates of a context make is aligned, and reads as its
table. -/
theorem pdv (h : p.Occurs setting) :
    ∃ us v, Pdv.ofUpdates? us = some v ∧ p.vars = Variables.ofUpdates us ∧ v.Aligned ∧
      (∀ name, v.place? name = p.vars.index? name ∧ v.get name = p.vars.get name) ∧
      ∀ i, v.valueAt i = p.vars.valueAt i := by
  obtain ⟨us, hus⟩ := h.grows
  obtain ⟨v, hv, hr⟩ := Pdv.represents_ofUpdates us
  have hr : v.Represents p.vars := hus ▸ hr
  exact ⟨us, v, hv, hus.symm, hr.aligned h.sound, fun name => ⟨hr.place? name, hr.get name⟩,
    hr.valueAt⟩

/-- The elements of the arrays of a context stand for variables of its table. -/
theorem has_element (h : p.Occurs setting) {array : String} {a : ArrayDef}
    (ha : p.arrays.find? array = some a) {x : String} (hx : x ∈ a.vars) : p.vars.Has x := by
  induction h with
  | empty => cases ha
  | declare _ hq ih =>
    have hadds := declareOwn_adds hq
    rcases hadds.arrays array a ha with ha | hvars
    · exact hadds.grows.has (ih ha)
    · exact hvars x hx
  | @refer p log name _ ih =>
    obtain ⟨vars, hp, hg, -⟩ := declareReference_eq p log name
    rw [hp] at ha ⊢
    exact hg.has (ih ha)
  | @reset p _ ih => exact (Variables.has_iff_of_headers p.vars.headers_reset x).mpr (ih ha)
  | @store p name value _ ih => exact (p.vars.grows_set name value).has (ih ha)

/-! ### The contexts of reading -/

theorem foldlM {parts : List StepStatement} (h : p.Occurs setting)
    (hq : parts.foldlM (declareOwn setting) p = .ok q) : q.Occurs setting := by
  induction parts generalizing p with
  | nil =>
    obtain rfl := Except.ok.inj hq
    exact h
  | cons s parts ih =>
    rw [List.foldlM_cons] at hq
    obtain ⟨p', hp, hq⟩ := bind_eq_ok_iff.mp hq
    exact ih (h.declare hp) hq

/-- Reading a fragment leads from one context to another. -/
theorem read (h : p.Occurs setting) (fragment : Fragment)
    (hq : fragment.declare setting p = .ok q) : q.Occurs setting :=
  h.foldlM ((Fragment.declare_eq_foldlM setting p fragment).symm.trans hq)

theorem referAll (h : p.Occurs setting) (names : List String) (log : List LogLine) :
    (names.foldl declareReference (p, log)).1.Occurs setting := by
  induction names generalizing p log with
  | nil => exact h
  | cons name names ih => exact ih (h.refer log name) (declareReference (p, log) name).2

theorem ofBody {notes : List LogLine} (h : Plan.ofBody setting body = .ok (plan, notes)) :
    plan.Occurs setting := by
  obtain ⟨p, hp, h⟩ := bind_eq_ok_iff.mp h
  obtain ⟨rfl, -⟩ := Prod.mk.inj (Except.ok.inj h)
  have hread : p.Occurs setting := empty.read (.all body) hp
  exact hread.referAll _ _

/-! ### The contexts of a run -/

theorem history (h : plan.Occurs setting) {rows : List (Option Row)} :
    ∀ o ∈ plan.history setting body rows,
      plan.OccursWith setting o.start.vars ∧ plan.OccursWith setting o.final.vars := by
  apply history_keeps (J := plan.OccursWith setting)
  · intro row _ vs hvs
    apply load_keeps (J := plan.OccursWith setting) ?_ ?_ hvs
    · exact fun _ h => h.reset
    · exact fun cell _ v _ h => h.store cell.1 v
  · exact fun _ _ name _ v _ h => h.store name v
  · exact h

/-- Every frame in which a statement of a running step starts is a context. -/
theorem reaches {notes : List LogLine} {rows : List (Option Row)} {o : Observation}
    {s : StepStatement} {f : Frame} (hc : compile setting body = (notes, .ok (plan, rows)))
    (ho : o ∈ plan.history setting body rows)
    (hf : Reaches (plan.step setting) o.number (.all body) o.start s f) :
    plan.OccursWith setting f.vars := by
  obtain ⟨⟨more, hp⟩, -⟩ := of_compile hc
  apply hf.keeps (J := plan.OccursWith setting)
  · exact fun _ _ name _ v _ h => h.store name v
  · exact ((ofBody hp).history o ho).1

end Plan.Occurs

end StepLang.DataStep
