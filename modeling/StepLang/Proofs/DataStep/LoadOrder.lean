import StepLang.Proofs.DataStep.FixedTable
import StepLang.Proofs.DataStep.JoinedRows
import StepLang.Proofs.DataStep.MergeLoop

/-! # The order of the cells that are loaded

The cells of a row are stored into the variables one after the other, so of several cells for one
variable the last one stays. The order of the cells can matter only if a row has two spellings of a
column. No row that is read has them if the columns of merged data sets, or the fields of data
lines, are spelled alike; otherwise the order decides which value is loaded.
-/

namespace StepLang

/-! ### Storing into the table -/

section FirstMatch

variable {α : Type} {p q : α → Bool} {f : α → α} {l : List α} {i : Nat}

theorem find?_modify_first (hf : ∀ a, p (f a) = p a) (h : l.findIdx? p = some i) :
    (l.modify i f).find? p = (l.find? p).map f := by
  induction l generalizing i with
  | nil => simp at h
  | cons a l ih =>
    rw [List.findIdx?_cons] at h
    cases hp : p a with
    | true =>
      obtain rfl : i = 0 := by simpa [hp, eq_comm] using h
      simp [hp, hf]
    | false =>
      obtain ⟨j, hj, rfl⟩ : ∃ j, l.findIdx? p = some j ∧ j + 1 = i := by simpa [hp] using h
      simp [hp, ih hj]

theorem find?_modify_other (hf : ∀ a, q (f a) = q a) (hpq : ∀ a, p a = true → q a = false)
    (h : l.findIdx? p = some i) : (l.modify i f).find? q = l.find? q := by
  induction l generalizing i with
  | nil => simp at h
  | cons a l ih =>
    rw [List.findIdx?_cons] at h
    cases hp : p a with
    | true =>
      obtain rfl : i = 0 := by simpa [hp, eq_comm] using h
      simp [hf, hpq a hp]
    | false =>
      obtain ⟨j, hj, rfl⟩ : ∃ j, l.findIdx? p = some j ∧ j + 1 = i := by simpa [hp] using h
      simp [List.find?_cons, ih hj]

end FirstMatch

namespace Variables

variable {vs : Variables} {column name : String}

theorem find?_set_self (h : vs.Has column) (hn : Text.upper column = Text.upper name)
    (value : Value) : (vs.set column value).find? name = (vs.find? name).map (·.store value) := by
  obtain ⟨i, hi, hset⟩ := set_of_has h value
  rw [hset]
  simp only [index?, hn] at hi
  exact find?_modify_first (fun v => by rw [v.key_store]) hi

theorem find?_set_other (hn : Text.upper column ≠ Text.upper name) (value : Value) :
    (vs.set column value).find? name = vs.find? name := by
  by_cases h : vs.Has column
  · obtain ⟨i, hi, hset⟩ := set_of_has h value
    rw [hset]
    refine find?_modify_other (fun v => by rw [v.key_store]) (fun v hv => ?_) hi
    rw [beq_iff_eq] at hv
    simpa [hv] using hn
  · rw [set_of_not_has h, find?, find?, List.find?_append, Option.or_eq_left_of_none]
    rw [List.find?_singleton, Variable.key_store, if_neg (by simpa using hn)]

theorem declare_of_has (h : vs.Has name) (kind : Kind) : vs.declare name kind = vs :=
  add_of_has (v := { name, kind }) h

theorem find?_reset (vs : Variables) (name : String) :
    vs.reset.find? name = (vs.find? name).map Variable.reset := by
  have hkey (v : Variable) : v.reset.key = v.key := by
    rw [v.reset.key_eq, v.key_eq]
    exact congrArg (fun h => Text.upper h.name) v.header_reset
  simp only [find?, reset, List.find?_map, Function.comp_def, hkey]

end Variables

theorem Variable.fit_reset (v : Variable) (value : Value) : v.reset.fit value = v.fit value := by
  unfold reset
  split <;> rfl

/-- The value of the last cell for a name, in any case of letters. -/
def Row.lastValue? (name : String) : Row → Option Value
  | [] => none
  | (column, value) :: rest =>
    (lastValue? name rest).or (if Text.upper column = Text.upper name then some value else none)

namespace Row

variable {r : Row} {name : String}

theorem mem_of_lastValue? {value : Value} (h : r.lastValue? name = some value) :
    ∃ column, (column, value) ∈ r ∧ Text.upper column = Text.upper name := by
  induction r with
  | nil => cases h
  | cons cell r ih =>
    obtain ⟨column, value'⟩ := cell
    rw [lastValue?, Option.or_eq_some_iff] at h
    rcases h with h | ⟨-, h⟩
    · obtain ⟨column', hm, hn⟩ := ih h
      exact ⟨column', List.mem_cons_of_mem _ hm, hn⟩
    · split at h
      · obtain rfl := Option.some.inj h
        exact ⟨column, List.mem_cons_self, ‹_›⟩
      · cases h

theorem lastValue?_eq_none_iff :
    r.lastValue? name = none ↔ ∀ cell ∈ r, Text.upper cell.1 ≠ Text.upper name := by
  induction r with
  | nil => simp [lastValue?]
  | cons cell r ih =>
    obtain ⟨column, value⟩ := cell
    rw [lastValue?, Option.or_eq_none_iff, ih, List.forall_mem_cons, and_comm]
    refine and_congr_left fun _ => ?_
    split <;> simp_all

theorem lastValue?_concat (r : Row) {column : String} (h : Text.upper column = Text.upper name)
    (value : Value) : lastValue? name (r ++ [(column, value)]) = some value := by
  induction r with
  | nil => simp [lastValue?, h]
  | cons cell r ih => simp [lastValue?, ih]

/-- In whatever order the cells of a map come, the last one for a name is the only one, if every
column has one spelling. -/
theorem lastValue?_perm {columns : List String} (hc : SpelledAlike columns) (hm : r.IsMap)
    (hr : r.Within (· ∈ columns)) {r' : Row} (hp : r'.Perm r) :
    r'.lastValue? name = r.get? name := by
  cases hv : r'.lastValue? name with
  | none =>
    rw [lastValue?_eq_none_iff] at hv
    have hnone : ∀ column ∈ r.map (·.1), Text.upper column ≠ Text.upper name := by
      intro column hm
      obtain ⟨cell, h, rfl⟩ := List.mem_map.mp hm
      exact hv cell (hp.mem_iff.mpr h)
    exact (get?_eq_none hnone fun cell h => List.mem_map_of_mem h).symm
  | some value =>
    obtain ⟨column, hcell, hn⟩ := mem_of_lastValue? hv
    have hcell := hp.mem_iff.mp hcell
    rw [get?_eq_cell? hc (hr _ hcell) hn hr, hm.cell?_of_mem hcell]

end Row

namespace DataStep

variable {vs : Variables}

theorem find?_foldl_set {row : Row} (hr : row.Within vs.Has) (name : String) :
    (row.foldl (fun vs cell => vs.set cell.1 cell.2) vs).find? name =
      (vs.find? name).map fun v => ((row.lastValue? name).map v.store).getD v := by
  induction row generalizing vs with
  | nil => simp [Row.lastValue?]
  | cons cell row ih =>
    obtain ⟨column, value⟩ := cell
    have hc : vs.Has column := hr _ List.mem_cons_self
    have hrest : Row.Within (vs.set column value).Has row := fun c hm =>
      (vs.grows_set column value).has (hr c (List.mem_cons_of_mem _ hm))
    rw [List.foldl_cons, ih hrest, Row.lastValue?]
    by_cases hn : Text.upper column = Text.upper name
    · rw [Variables.find?_set_self hc hn, if_pos hn, Option.map_map]
      cases vs.find? name with
      | none => rfl
      | some v => cases Row.lastValue? name row <;> rfl
    · rw [Variables.find?_set_other hn, if_neg hn, Option.or_none]

theorem find?_load {row : Row} (hr : row.Within vs.Has) (name : String) :
    (Step.load vs (some row)).find? name = (vs.find? name).map fun v =>
      ((row.lastValue? name).map v.reset.store).getD v.reset := by
  have hreset : row.Within vs.reset.Has := fun cell hc =>
    (Variables.has_iff_of_headers vs.headers_reset cell.1).mpr (hr cell hc)
  have hfold := find?_foldl_set hreset name
  rw [Variables.find?_reset, Option.map_map] at hfold
  exact hfold

theorem get_load {row : Row} (hr : row.Within vs.Has) {name : String} {v : Variable}
    (hv : vs.find? name = some v) :
    (Step.load vs (some row)).get name =
      ((row.lastValue? name).map v.fit).getD v.reset.value := by
  rw [Variables.get, find?_load hr, hv]
  cases row.lastValue? name with
  | none => rfl
  | some value => exact v.fit_reset value

theorem exists_perm_concat {row : Row} {cell : String × Value} (h : cell ∈ row) :
    ∃ rest, (rest ++ [cell]).Perm row := by
  obtain ⟨before, after, rfl⟩ := List.append_of_mem h
  refine ⟨before ++ after, ?_⟩
  exact (List.perm_append_singleton cell _).trans List.perm_middle.symm

/-- The order of the cells does not matter if and only if the cells for one variable give it one
value. -/
theorem load_perm_iff {row : Row} (hr : row.Within vs.Has) :
    (∀ row' : Row, row'.Perm row → ∀ name,
        (Step.load vs (some row')).get name = (Step.load vs (some row)).get name) ↔
      ∀ c ∈ row, ∀ c' ∈ row, Text.upper c.1 = Text.upper c'.1 →
        ∀ v, vs.find? c.1 = some v → v.fit c.2 = v.fit c'.2 := by
  have hwithin {row' : Row} (hp : row'.Perm row) : row'.Within vs.Has := fun cell hc =>
    hr cell (hp.mem_iff.mp hc)
  constructor
  · intro h c hc c' hc' hn v hv
    -- either cell can come last
    have hlast {cell : String × Value} (hm : cell ∈ row)
        (hn : Text.upper cell.1 = Text.upper c.1) :
        v.fit cell.2 = (Step.load vs (some row)).get c.1 := by
      obtain ⟨rest, hp⟩ := exists_perm_concat hm
      rw [← h _ hp c.1, get_load (hwithin hp) hv, Row.lastValue?_concat rest hn]
      rfl
    rw [hlast hc rfl, hlast hc' hn.symm]
  · intro h row' hp name
    cases hv : vs.find? name with
    | none =>
      rw [Variables.get, Variables.get, find?_load (hwithin hp), find?_load hr, hv]
      rfl
    | some v =>
      rw [get_load (hwithin hp) hv, get_load hr hv]
      cases hl : row'.lastValue? name with
      | none =>
        have hnone : row.lastValue? name = none := Row.lastValue?_eq_none_iff.mpr fun cell hc =>
          Row.lastValue?_eq_none_iff.mp hl cell (hp.mem_iff.mpr hc)
        rw [hnone]
      | some value =>
        obtain ⟨column, hm, hn⟩ := Row.mem_of_lastValue? hl
        cases hl' : row.lastValue? name with
        | none =>
          exact absurd hn (Row.lastValue?_eq_none_iff.mp hl' _ (hp.mem_iff.mp hm))
        | some value' =>
          obtain ⟨column', hm', hn'⟩ := Row.mem_of_lastValue? hl'
          have hfind : vs.find? column = some v := by
            simpa only [Variables.find?, hn] using hv
          exact h _ (hp.mem_iff.mp hm) _ hm' (hn.trans hn'.symm) v hfind

/-! ### Rows that are read -/

/-- Rows of the sources, at most one of each, in the order of the sources. -/
inductive Drawn : List (List Row) → List Row → Prop where

  | nil : Drawn [] []

  | skip {source : List Row} {sources : List (List Row)} {parts : List Row} :
      Drawn sources parts → Drawn (source :: sources) parts

  | take {source : List Row} {sources : List (List Row)} {parts : List Row} {r : Row} :
      r ∈ source → Drawn sources parts → Drawn (source :: sources) (r :: parts)

namespace Drawn

theorem of_filterMap {f : List Row → Option Row} (hf : ∀ source r, f source = some r → r ∈ source)
    (sources : List (List Row)) : Drawn sources (sources.filterMap f) := by
  induction sources with
  | nil => exact .nil
  | cons source sources ih =>
    cases h : f source with
    | none =>
      rw [List.filterMap_cons_none h]
      exact ih.skip
    | some r =>
      rw [List.filterMap_cons_some h]
      exact ih.take (hf source r h)

theorem of_map {g : List Row → List Row} (hg : ∀ source, ∀ r ∈ g source, r ∈ source)
    {sources : List (List Row)} {parts : List Row} (h : Drawn (sources.map g) parts) :
    Drawn sources parts := by
  induction sources generalizing parts with
  | nil => exact h
  | cons source sources ih =>
    cases h with
    | skip h => exact (ih h).skip
    | take hr h => exact (ih h).take (hg source _ hr)

theorem mem {sources : List (List Row)} {parts : List Row} (h : Drawn sources parts) :
    ∀ r ∈ parts, ∃ source ∈ sources, r ∈ source := by
  induction h with
  | nil => simp
  | skip _ ih =>
    intro r hr
    obtain ⟨source, hs, hm⟩ := ih r hr
    exact ⟨source, List.mem_cons_of_mem _ hs, hm⟩
  | take hr _ ih =>
    intro r' hr'
    rcases List.mem_cons.mp hr' with rfl | hr'
    · exact ⟨_, List.mem_cons_self, hr⟩
    · obtain ⟨source, hs, hm⟩ := ih r' hr'
      exact ⟨source, List.mem_cons_of_mem _ hs, hm⟩

end Drawn

theorem drawn_of_mem_mergeGroups (keys : List ByVariable) (bound : Nat)
    {sources : List (List Row)} {row : Row} (h : row ∈ mergeGroups keys bound sources) :
    ∃ parts, Drawn sources parts ∧ row = joinRows parts := by
  induction bound generalizing sources with
  | zero => cases h
  | succ bound ih =>
    unfold mergeGroups at h
    split at h
    · cases h
    · rcases List.mem_append.mp h with h | h
      · obtain ⟨i, -, rfl⟩ := List.mem_map.mp h
        refine ⟨_, ?_, rfl⟩
        refine .of_map (fun source r => (List.takeWhile_sublist _).mem) (.of_filterMap ?_ _)
        exact fun source r => mem_of_rowAt?
      · obtain ⟨parts, hd, rfl⟩ := ih h
        exact ⟨parts, hd.of_map fun source r => (List.dropWhile_sublist _).mem, rfl⟩

theorem drawn_of_mem_merge {keys : List ByVariable} {sources : List (List Row)} {row : Row}
    (h : row ∈ merge keys sources) : ∃ parts, Drawn sources parts ∧ row = joinRows parts := by
  unfold merge at h
  split at h
  · obtain ⟨i, -, rfl⟩ := List.mem_map.mp h
    exact ⟨_, .of_filterMap (fun source r => List.mem_of_getElem?) _, rfl⟩
  · exact drawn_of_mem_mergeGroups keys _ h

theorem isMap_readFields (line : Nat) (fields : List InputField) (words : List String) {row : Row}
    (h : row.IsMap) : (readFields line fields words row).1.IsMap := by
  induction fields generalizing words row with
  | nil => exact h
  | cons f fields ih => exact ih words.tail (h.insert _ _)

theorem isMap_readLines (fields : List InputField) (lines : List (String × Nat)) :
    ∀ r ∈ (readLines fields lines).1, r.IsMap :=
  forall_mem_readLines (fun n words => isMap_readFields n fields words List.nodup_nil) lines

/-- No row that is read can have two spellings of a column: not one from a data set, nor one of
merged data sets, nor one of data lines. -/
structure Plan.SpelledOnce (p : Plan) : Prop where
  inputs : ∀ i ∈ p.inputs, Row.SpelledAlike i.2.columns
  merged : p.hasMerge = true → Row.SpelledAlike (p.inputs.flatMap (·.2.columns))
  fields : Row.SpelledAlike (p.fields.map (·.name))

/-- The rows of the inputs are maps with their cells in columns. -/
structure Plan.ReadsTables (p : Plan) : Prop where
  keyed : ∀ i ∈ p.inputs, i.2.WellKeyed
  maps : ∀ i ∈ p.inputs, ∀ r ∈ i.2.rows, r.IsMap

variable {setting : Setting} {body : List StepStatement} {plan : Plan} {notes : List LogLine}

theorem Plan.Describes.keyed {parts : List StepStatement} (h : Describes setting parts plan)
    (hk : WellKeyedInputs setting parts) : ∀ i ∈ plan.inputs, i.2.WellKeyed := by
  intro i hi
  obtain ⟨s, hs, hm, hd⟩ := h.sources i hi
  exact hk s hs i.1 hm i.2 hd

theorem Plan.ReadsTables.drawn (ht : plan.ReadsTables) {parts : List Row}
    (h : Drawn (plan.inputs.map (·.2.rows)) parts) :
    ∀ r ∈ parts, r.IsMap ∧ r.Within (· ∈ plan.inputs.flatMap (·.2.columns)) := by
  intro r hr
  obtain ⟨source, hs, hm⟩ := h.mem r hr
  obtain ⟨i, hi, rfl⟩ := List.mem_map.mp hs
  refine ⟨ht.maps i hi r hm, fun cell hc => ?_⟩
  exact List.mem_flatMap.mpr ⟨i, hi, ht.keyed i hi r hm cell hc⟩

/-- A row that is read is a map, and its columns are spelled alike. -/
theorem Plan.SpelledOnce.rows (hs : plan.SpelledOnce) (ht : plan.ReadsTables) {rows : List Row}
    (hr : plan.rows = (notes, .ok (some rows))) :
    ∀ row ∈ rows, row.IsMap ∧ ∃ columns, Row.SpelledAlike columns ∧ row.Within (· ∈ columns) := by
  intro row hrow
  unfold Plan.rows at hr
  split at hr
  · next hmerge =>
    split at hr
    · cases hr
    · obtain rfl := Option.some.inj (Except.ok.inj (Prod.mk.inj hr).2)
      obtain ⟨parts, hd, rfl⟩ := drawn_of_mem_merge hrow
      refine ⟨isMap_joinRows parts, _, hs.merged hmerge, ?_⟩
      exact within_joinRows fun r hr => (ht.drawn hd r hr).2
  · split at hr
    · obtain rfl := Option.some.inj (Except.ok.inj (Prod.mk.inj hr).2)
      have hm : row ∈ plan.inputs.flatMap (·.2.rows) := by
        split at hrow
        · exact hrow
        · exact mem_of_mem_orderRows hrow
      obtain ⟨i, hi, hm⟩ := List.mem_flatMap.mp hm
      exact ⟨ht.maps i hi row hm, _, hs.inputs i hi, ht.keyed i hi row hm⟩
    · split at hr
      · split at hr
        · obtain rfl := Option.some.inj (Except.ok.inj (Prod.mk.inj hr).2)
          refine ⟨isMap_readLines _ _ row hrow, _, hs.fields, ?_⟩
          exact within_readLines _ _ (fun f hf => List.mem_map_of_mem hf) row hrow
        · cases hr
      · split at hr <;> cases hr

theorem Plan.drawn_of_mem_rows (hm : plan.hasMerge = true) {rows : List Row}
    (hr : plan.rows = (notes, .ok (some rows))) {row : Row} (hrow : row ∈ rows) :
    ∃ parts, Drawn (plan.inputs.map (·.2.rows)) parts ∧ row = joinRows parts := by
  rw [Plan.rows, if_pos hm] at hr
  split at hr
  · cases hr
  · obtain rfl := Option.some.inj (Except.ok.inj (Prod.mk.inj hr).2)
    exact drawn_of_mem_merge hrow

theorem mem_of_mem_observations {limit : Option Nat} {read : Option (List Row)} {row : Row}
    (h : some row ∈ observations limit read) : ∃ rows, read = some rows ∧ row ∈ rows := by
  cases read with
  | none => simp [observations] at h
  | some rows =>
    refine ⟨rows, rfl, ?_⟩
    cases limit with
    | none =>
      obtain ⟨r, hr, ⟨⟩⟩ := List.mem_map.mp h
      exact hr
    | some n =>
      obtain ⟨r, hr, ⟨⟩⟩ := List.mem_map.mp h
      exact List.mem_of_mem_take hr

/-- If columns are spelled alike, the order in which the cells of a row come does not matter, and a
variable is loaded with the value of the last data set that is merged and has one. -/
theorem load_independent_of_order {rows : List (Option Row)}
    (h : compile setting body = (notes, .ok (plan, rows)))
    (hk : WellKeyedInputs setting (bodyParts body))
    (hmaps : ∀ i ∈ plan.inputs, ∀ r ∈ i.2.rows, r.IsMap) (hs : plan.SpelledOnce)
    (hv : ∀ name, plan.vars.Has name → vs.Has name) :
    ∀ row, some row ∈ rows →
      (∀ row' : Row, row'.Perm row → ∀ name,
        (Step.load vs (some row')).get name = (Step.load vs (some row)).get name) ∧
      (plan.hasMerge = true →
        ∃ parts, Drawn (plan.inputs.map (·.2.rows)) parts ∧ row = joinRows parts ∧
          ∀ row' : Row, row'.Perm row → ∀ name v, vs.find? name = some v →
            (Step.load vs (some row')).get name =
              ((parts.reverse.findSome? (·.get? name)).map v.fit).getD v.reset.value) := by
  intro row hrow
  have hwithin : row.Within vs.Has := fun cell hc => hv _ (within_of_compile h hk _ hrow cell hc)
  obtain ⟨⟨more, hp⟩, more', read, hread, rfl⟩ := of_compile h
  obtain ⟨rows, rfl, hmem⟩ := mem_of_mem_observations hrow
  have ht : plan.ReadsTables := ⟨(Plan.ofBody_describes hp).1.keyed hk, hmaps⟩
  obtain ⟨hmap, columns, hc, hin⟩ := hs.rows ht hread row hmem
  constructor
  · refine (load_perm_iff hwithin).mpr fun c hm c' hm' hn v _ => ?_
    obtain ⟨name, value⟩ := c
    obtain ⟨name', value'⟩ := c'
    obtain rfl : name = name' := hc _ (hin _ hm) _ (hin _ hm') hn
    have hcell := (hmap.cell?_of_mem hm).symm.trans (hmap.cell?_of_mem hm')
    rw [Option.some.inj hcell]
  · intro hmerge
    obtain ⟨parts, hd, rfl⟩ := Plan.drawn_of_mem_rows hmerge hread hmem
    refine ⟨parts, hd, rfl, fun row' hp name v hfind => ?_⟩
    have hwithin' : row'.Within vs.Has := fun cell hm => hwithin cell (hp.mem_iff.mp hm)
    rw [get_load hwithin' hfind, Row.lastValue?_perm hc hmap hin hp]
    rw [get?_joinRows (hs.merged hmerge) (fun r hr => (ht.drawn hd r hr).1)
      fun r hr => (ht.drawn hd r hr).2]

def mergeVisits : List StepStatement :=
  [.merge [⟨none, "visits"⟩, ⟨none, "again"⟩]]

theorem load_independent_of_order_mergeVisits : ∃ notes plan rows,
    compile (Setting.reading visits ["out"]) mergeVisits = (notes, .ok (plan, rows)) ∧
      plan.hasMerge = true ∧ plan.SpelledOnce ∧
      ∀ row, some row ∈ rows → ∀ row' : Row, row'.Perm row → ∀ name,
        (Step.load plan.vars (some row')).get name =
          (Step.load plan.vars (some row)).get name := by
  obtain ⟨notes, ⟨plan, rows⟩, h⟩ := exists_eq_of_isOk
    (show (compile (Setting.reading visits ["out"]) mergeVisits).2.isOk = true by decide +kernel)
  have hmerge : ((compile (Setting.reading visits ["out"]) mergeVisits).2.toOption.map
      (·.1.hasMerge)) = some true := by decide +kernel
  have hfields : ((compile (Setting.reading visits ["out"]) mergeVisits).2.toOption.map
      (·.1.fields.map (·.name))) = some [] := by decide +kernel
  rw [h] at hmerge hfields
  have hk := wellKeyed_visits ["out"] (bodyParts mergeVisits)
  have hvisits : ∀ i ∈ plan.inputs, i.2 = visits := by
    intro i hi
    obtain ⟨⟨more, hp⟩, -⟩ := of_compile h
    obtain ⟨s, -, -, hd⟩ := (Plan.ofBody_describes hp).1.sources i hi
    exact (Except.ok.inj hd).symm
  have hspelled : Row.SpelledAlike visits.columns := by
    intro a ha b hb hab
    simp only [visits, List.mem_cons, List.not_mem_nil, or_false] at ha hb
    rcases ha with rfl | rfl <;> rcases hb with rfl | rfl <;>
      first
      | rfl
      | simp [Text.upper, ← String.toList_inj] at hab
  have hs : plan.SpelledOnce := by
    refine ⟨fun i hi => ?_, fun _ a ha b hb => ?_, ?_⟩
    · rw [hvisits i hi]
      exact hspelled
    · obtain ⟨i, hi, ha⟩ := List.mem_flatMap.mp ha
      obtain ⟨j, hj, hb⟩ := List.mem_flatMap.mp hb
      rw [hvisits i hi] at ha
      rw [hvisits j hj] at hb
      exact hspelled a ha b hb
    · rw [show plan.fields.map (·.name) = [] from Option.some.inj hfields]
      simp [Row.SpelledAlike]
  have hmaps : ∀ i ∈ plan.inputs, ∀ r ∈ i.2.rows, r.IsMap := by
    intro i hi
    rw [hvisits i hi]
    decide
  refine ⟨notes, plan, rows, h, Option.some.inj hmerge, hs, fun row hrow => ?_⟩
  exact (load_independent_of_order h hk hmaps hs (fun _ hn => hn) row hrow).1

/-- Data sets of one column each, which the second one spells in another way. -/
def mixedCase : Setting :=
  { Setting.reading visits ["check"] with
    dataset := fun r =>
      if r.name = "a" then .ok ⟨"a", ["X"], [[("X", .number 1.0)]]⟩
      else if r.name = "b" then .ok ⟨"b", ["x"], [[("x", .number 2.0)]]⟩
      else .ok ⟨"c", ["X"], [[("X", .number 3.0)]]⟩ }

def mergeMixedCase : List StepStatement :=
  [.merge [⟨none, "a"⟩, ⟨none, "b"⟩, ⟨none, "c"⟩]]

/-- The merged row has both spellings, and the order of its cells decides whether the value of the
last data set is loaded. -/
theorem load_depends_on_order_mixedCase : ∃ notes plan,
    compile mixedCase mergeMixedCase =
        (notes, .ok (plan, [some [("X", .number 3.0), ("x", .number 2.0)]])) ∧
      plan.inputs.map (·.2.columns) = [["X"], ["x"], ["X"]] ∧
      plan.inputs.map (·.2.rows) =
        [[[("X", .number 1.0)]], [[("x", .number 2.0)]], [[("X", .number 3.0)]]] ∧
      [("x", Value.number 2.0), ("X", .number 3.0)].Perm [("X", .number 3.0), ("x", .number 2.0)] ∧
      (Step.load plan.vars (some [("x", .number 2.0), ("X", .number 3.0)])).get "X" =
        .number 3.0 ∧
      (Step.load plan.vars (some [("X", .number 3.0), ("x", .number 2.0)])).get "X" =
        .number 2.0 := by
  obtain ⟨notes, ⟨plan, rows⟩, h⟩ := exists_eq_of_isOk
    (show (compile mixedCase mergeMixedCase).2.isOk = true by decide +kernel)
  have hrows : (compile mixedCase mergeMixedCase).2.toOption.map (·.2) =
      some [some [("X", .number 3.0), ("x", .number 2.0)]] := by decide +kernel
  have hvars : (compile mixedCase mergeMixedCase).2.toOption.map (·.1.vars) =
      some (((Variables.empty.declare "X" .numeric).declare "x" .numeric).declare "X" .numeric) :=
    rfl
  have hcolumns : (compile mixedCase mergeMixedCase).2.toOption.map
      (·.1.inputs.map (·.2.columns)) = some [["X"], ["x"], ["X"]] := by decide +kernel
  have hinputs : (compile mixedCase mergeMixedCase).2.toOption.map (·.1.inputs.map (·.2.rows)) =
      some [[[("X", .number 1.0)]], [[("x", .number 2.0)]], [[("X", .number 3.0)]]] := by
    decide +kernel
  rw [h] at hrows hvars hcolumns hinputs
  obtain rfl : rows = _ := Option.some.inj hrows
  refine ⟨notes, plan, h, Option.some.inj hcolumns, Option.some.inj hinputs, .swap _ _ _, ?_⟩
  -- the second spelling finds the variable of the first one
  have hupper : Text.upper "x" = Text.upper "X" := by simp [Text.upper, ← String.toList_inj]
  have hfirst : (Variables.empty.declare "X" .numeric).Has "X" := Variables.has_declare _ _ _
  have hsecond : (Variables.empty.declare "X" .numeric).Has "x" := by
    rw [Variables.Has, hupper]
    exact hfirst
  have hvars : plan.vars = Variables.empty.declare "X" .numeric := by
    refine (Option.some.inj hvars).trans ?_
    rw [Variables.declare_of_has hsecond, Variables.declare_of_has hfirst]
  have hfind : plan.vars.find? "X" = some { name := "X", kind := .numeric } := by
    rw [hvars]
    simp [Variables.declare, Variables.add, Variables.index?, Variables.find?, Variables.empty]
  have hload {row : Row} {x : Float} (hr : ∀ cell ∈ row, cell.1 = "X" ∨ cell.1 = "x")
      (hl : row.lastValue? "X" = some (.number x)) :
      (Step.load plan.vars (some row)).get "X" = .number x := by
    have hwithin : row.Within plan.vars.Has := by
      intro cell hc
      rw [hvars]
      rcases hr cell hc with hn | hn
      · rw [hn]
        exact hfirst
      · rw [hn]
        exact hsecond
    rw [get_load hwithin hfind, hl]
    rfl
  exact ⟨hload (by simp) (by simp [Row.lastValue?, hupper]),
    hload (by simp) (by simp [Row.lastValue?, hupper])⟩

end DataStep

end StepLang
