import StepLang.Proofs.DataStep.Declaration
import StepLang.Proofs.Sorting

/-! # The columns of the rows that a step reads

Rows are put together from the rows of the inputs, or from the fields of data lines. No column
comes in on the way, so every column of a row that is read is a variable of the plan.
-/

namespace StepLang

/-- All columns of a row have a property. -/
def Row.Within (P : String → Prop) (r : Row) : Prop := ∀ cell ∈ r, P cell.1

/-- The cells of every row are in columns of the data set. -/
def Dataset.WellKeyed (d : Dataset) : Prop := ∀ row ∈ d.rows, Row.Within (· ∈ d.columns) row

instance (d : Dataset) : Decidable d.WellKeyed :=
  inferInstanceAs (Decidable (∀ row ∈ d.rows, ∀ cell ∈ row, cell.1 ∈ d.columns))

namespace DataStep

variable {P : String → Prop}

theorem within_insert {r : Row} (hr : Row.Within P r) {column : String} (hc : P column)
    (value : Value) : Row.Within P (Row.insert r column value) := by
  induction r with
  | nil =>
    intro cell h
    obtain rfl := List.mem_singleton.mp h
    exact hc
  | cons cell rest ih =>
    obtain ⟨name, old⟩ := cell
    have hrest : Row.Within P rest := fun c h => hr c (List.mem_cons_of_mem _ h)
    unfold Row.insert
    intro c h
    split at h
    · rcases List.mem_cons.mp h with rfl | h
      · exact hr (name, old) List.mem_cons_self
      · exact hrest c h
    · rcases List.mem_cons.mp h with rfl | h
      · exact hr (name, old) List.mem_cons_self
      · exact ih hrest c h

theorem within_union {r s : Row} (hr : Row.Within P r) (hs : Row.Within P s) :
    Row.Within P (Row.union r s) := by
  unfold Row.union
  induction s generalizing r with
  | nil => exact hr
  | cons cell s ih =>
    exact ih (within_insert hr (hs cell List.mem_cons_self) cell.2)
      fun c h => hs c (List.mem_cons_of_mem _ h)

/-! ### Merging -/

theorem within_joinRows {rows : List Row} (h : ∀ r ∈ rows, Row.Within P r) :
    Row.Within P (joinRows rows) := by
  have hf : ∀ (r : Row), Row.Within P r → Row.Within P (rows.foldl Row.union r) := by
    induction rows with
    | nil => exact fun _ hr => hr
    | cons s rows ih =>
      intro r hr
      exact ih (fun t ht => h t (List.mem_cons_of_mem _ ht)) _
        (within_union hr (h s List.mem_cons_self))
  exact hf [] (by simp [Row.Within])

variable {sources : List (List Row)}

theorem within_mergeByPosition (h : ∀ l ∈ sources, ∀ r ∈ l, Row.Within P r) :
    ∀ r ∈ mergeByPosition sources, Row.Within P r := by
  intro r hr
  obtain ⟨i, -, rfl⟩ := List.mem_map.mp hr
  apply within_joinRows
  intro s hs
  obtain ⟨l, hl, hi⟩ := List.mem_filterMap.mp hs
  exact h l hl s (List.mem_of_getElem? hi)

theorem within_mergeGroup (h : ∀ l ∈ sources, ∀ r ∈ l, Row.Within P r) :
    ∀ r ∈ mergeGroup sources, Row.Within P r := by
  intro r hr
  obtain ⟨i, -, rfl⟩ := List.mem_map.mp hr
  apply within_joinRows
  intro s hs
  obtain ⟨l, hl, hi⟩ := List.mem_filterMap.mp hs
  cases hg : l[i]? with
  | some t =>
    rw [hg] at hi
    obtain rfl := Option.some.inj hi
    exact h l hl t (List.mem_of_getElem? hg)
  | none =>
    rw [hg] at hi
    exact h l hl s (List.mem_of_getLast? hi)

theorem within_mergeGroups (keys : List ByVariable) (bound : Nat)
    (h : ∀ l ∈ sources, ∀ r ∈ l, Row.Within P r) :
    ∀ r ∈ mergeGroups keys bound sources, Row.Within P r := by
  induction bound generalizing sources with
  | zero => simp [mergeGroups]
  | succ bound ih =>
    intro r hr
    unfold mergeGroups at hr
    split at hr
    · cases hr
    · rcases List.mem_append.mp hr with hr | hr
      · refine within_mergeGroup (fun l hl s hs => ?_) r hr
        obtain ⟨l', hl', rfl⟩ := List.mem_map.mp hl
        exact h l' hl' s ((List.takeWhile_sublist _).mem hs)
      · refine ih (fun l hl s hs => ?_) r hr
        obtain ⟨l', hl', rfl⟩ := List.mem_map.mp hl
        exact h l' hl' s ((List.dropWhile_sublist _).mem hs)

theorem within_merge (keys : List ByVariable) (h : ∀ l ∈ sources, ∀ r ∈ l, Row.Within P r) :
    ∀ r ∈ merge keys sources, Row.Within P r := by
  unfold merge
  split
  · exact within_mergeByPosition h
  · exact within_mergeGroups keys _ h

/-! ### Data lines -/

theorem within_readFields (line : Nat) (fields : List InputField) (words : List String) (row : Row)
    (hf : ∀ f ∈ fields, P f.name) (hr : Row.Within P row) :
    Row.Within P (readFields line fields words row).1 := by
  induction fields generalizing words row with
  | nil => exact hr
  | cons f fields ih =>
    exact ih words.tail _ (fun g hg => hf g (List.mem_cons_of_mem _ hg))
      (within_insert hr (hf f List.mem_cons_self) _)

theorem forall_mem_readLines {Q : Row → Prop} {fields : List InputField}
    (h : ∀ n words, Q (readFields n fields words []).1) (lines : List (String × Nat)) :
    ∀ r ∈ (readLines fields lines).1, Q r := by
  induction lines with
  | nil => simp [readLines]
  | cons line rest ih =>
    obtain ⟨text, n⟩ := line
    by_cases hw : (Text.words text).isEmpty = true
    · simpa only [readLines, hw, if_true] using ih
    · intro r hr
      simp only [readLines, hw] at hr
      rcases List.mem_cons.mp hr with rfl | hr
      · exact h n _
      · exact ih r hr

theorem within_readLines (fields : List InputField) (lines : List (String × Nat))
    (hf : ∀ f ∈ fields, P f.name) : ∀ r ∈ (readLines fields lines).1, Row.Within P r :=
  forall_mem_readLines
    (fun n words => within_readFields n fields words [] hf (by simp [Row.Within])) lines

/-! ### The rows of a plan -/

theorem mem_of_mem_orderRows {keys : List ByVariable} {rows : List Row} {r : Row}
    (h : r ∈ orderRows keys rows) : r ∈ rows := by
  unfold orderRows at h
  split at h
  · exact List.mem_mergeSort.mp h
  · exact Sorting.sort_subset _ rows h

variable {setting : Setting} {parts : List StepStatement} {plan : Plan}

/-- The data sets that statements read are such that the cells of every row are in columns. -/
def WellKeyedInputs (setting : Setting) (parts : List StepStatement) : Prop :=
  ∀ s ∈ parts, ∀ r ∈ s.sources, ∀ d, setting.dataset r = .ok d → d.WellKeyed

/-- Every column of a row that a step reads is a variable of its plan. -/
theorem Plan.Describes.rows_within (h : Describes setting parts plan)
    (hk : WellKeyedInputs setting parts) {notes : List LogLine} {rows : List Row}
    (hr : plan.rows = (notes, .ok (some rows))) : ∀ r ∈ rows, Row.Within plan.vars.Has r := by
  have hi : ∀ i ∈ plan.inputs, ∀ r ∈ i.2.rows, Row.Within plan.vars.Has r := by
    intro i hi r hr cell hc
    obtain ⟨s, hs, hm, hd⟩ := h.sources i hi
    exact h.inputs i hi cell.1 (hk s hs i.1 hm i.2 hd r hr cell hc)
  unfold Plan.rows at hr
  split at hr
  · split at hr
    · cases hr
    · obtain rfl := Option.some.inj (Except.ok.inj (Prod.mk.inj hr).2)
      apply within_merge
      intro l hl
      obtain ⟨i, him, rfl⟩ := List.mem_map.mp hl
      exact hi i him
  · split at hr
    · obtain rfl := Option.some.inj (Except.ok.inj (Prod.mk.inj hr).2)
      intro r hm
      have hm : r ∈ plan.inputs.flatMap (·.2.rows) := by
        split at hm
        · exact hm
        · exact mem_of_mem_orderRows hm
      obtain ⟨i, him, hm⟩ := List.mem_flatMap.mp hm
      exact hi i him r hm
    · split at hr
      · split at hr
        · obtain rfl := Option.some.inj (Except.ok.inj (Prod.mk.inj hr).2)
          apply within_readLines
          intro f hf
          rw [h.fields] at hf
          obtain ⟨s, hs, hf⟩ := List.mem_flatMap.mp hf
          apply h.declared s hs
          cases s <;> simp only [StepStatement.fields, List.not_mem_nil] at hf
          exact List.mem_map_of_mem hf
        · cases hr
      · split at hr <;> cases hr

theorem Plan.Describes.rows_of_noInput (h : Describes setting parts plan)
    (hn : parts.all (! ·.isInput) = true) : plan.rows.2 = .ok none := by
  obtain ⟨hs, hm⟩ := h.noInput hn
  have hf : plan.fields = [] := by
    rw [h.fields, List.flatMap_eq_nil_iff]
    intro s hm
    have := List.all_eq_true.mp hn s hm
    simp only [StepStatement.isInput, Bool.not_eq_true', Bool.or_eq_false_iff] at this
    simpa using this.2
  unfold Plan.rows
  rw [hs, hm, hf]
  simp only [Bool.false_eq_true, if_false, List.isEmpty_nil, Bool.not_true]
  split <;> rfl

/-- The rows of the observations of a step have the columns of the rows that it reads. -/
theorem within_observations {limit : Option Nat} {rows : Option (List Row)}
    (h : ∀ l, rows = some l → ∀ r ∈ l, Row.Within P r) :
    ∀ row ∈ observations limit rows, Row.Within P (row.getD []) := by
  intro row hm
  cases rows with
  | none =>
    obtain rfl := List.mem_singleton.mp hm
    simp [Row.Within]
  | some l =>
    cases limit with
    | none =>
      obtain ⟨r, hr, rfl⟩ := List.mem_map.mp hm
      exact h l rfl r hr
    | some n =>
      obtain ⟨r, hr, rfl⟩ := List.mem_map.mp hm
      exact h l rfl r (List.mem_of_mem_take hr)

end DataStep

end StepLang
