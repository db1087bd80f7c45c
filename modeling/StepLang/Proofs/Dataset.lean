import Mathlib.Data.List.Forall2
import Mathlib.Data.List.Nodup
import StepLang.Dataset
import StepLang.Proofs.DataStep.JoinedRows

/-! # Columns and cells of data sets

A row is a map, so that data sets with the same cells in another order are the same. Columns that
are distinct in any case of letters are found under their own names.
-/

namespace StepLang

/-- The data sets differ at most in the order in which the cells of a row stand. -/
structure Dataset.Reordered (d d' : Dataset) : Prop where
  name : d'.name = d.name
  columns : d'.columns = d.columns
  rows : List.Forall₂ List.Perm d.rows d'.rows

/-- What holds of every row of a data set holds of it however the cells stand. -/
theorem Dataset.Reordered.forall_rows {d d' : Dataset} (h : d.Reordered d') {P : Row → Prop}
    (hperm : ∀ {r r' : Row}, r.Perm r' → P r → P r') (hP : ∀ row ∈ d.rows, P row) :
    ∀ row ∈ d'.rows, P row := by
  obtain ⟨-, -, hrows⟩ := h
  generalize d.rows = rows at hP hrows
  generalize d'.rows = rows' at hrows
  induction hrows with
  | nil => simp
  | cons hrow _ ih =>
    rw [List.forall_mem_cons] at hP ⊢
    exact ⟨hperm hrow hP.1, ih hP.2⟩

namespace Row

theorem IsMap.perm {r r' : Row} (h : r.Perm r') (hr : r.IsMap) : r'.IsMap :=
  (h.map _).nodup_iff.mp hr

theorem IsMap.map_cell? {r : Row} (h : r.IsMap) :
    (r.map (·.1)).map (fun c => (c, (r.cell? c).getD .missing)) = r := by
  rw [List.map_map]
  calc r.map _ = r.map id := by
        apply List.map_congr_left
        rintro ⟨c, v⟩ hcell
        simp only [Function.comp_apply, h.cell?_of_mem hcell, Option.getD_some, id_eq]
    _ = r := List.map_id r

end Row

namespace Dataset

variable {d : Dataset}

/-- No two columns are the same in any case of letters. -/
def DistinctColumns (d : Dataset) : Prop := (d.columns.map Text.upper).Nodup

instance (d : Dataset) : Decidable d.DistinctColumns :=
  inferInstanceAs (Decidable (d.columns.map Text.upper).Nodup)

theorem DistinctColumns.nodup (h : d.DistinctColumns) : d.columns.Nodup :=
  List.Nodup.of_map _ h

theorem DistinctColumns.column?_of_mem (h : d.DistinctColumns) {c : String}
    (hc : c ∈ d.columns) : d.column? c = some c := by
  unfold column?
  unfold DistinctColumns at h
  generalize d.columns = columns at h hc
  induction columns with
  | nil => cases hc
  | cons c' columns ih =>
    rw [List.map_cons, List.nodup_cons] at h
    rcases List.mem_cons.mp hc with rfl | hc
    · exact List.find?_cons_of_pos (Text.sameName_iff.mpr rfl)
    · have hne : Text.sameName c' c = false := by
        rw [Bool.eq_false_iff]
        intro hsame
        apply h.1
        rw [Text.sameName_iff.mp hsame]
        exact List.mem_map_of_mem hc
      rw [List.find?_cons, hne]
      exact ih h.2 hc

theorem column?_eq_none {c : String} (h : Text.upper c ∉ d.columns.map Text.upper) :
    d.column? c = none := by
  apply List.find?_eq_none.mpr
  intro c' hc' hsame
  apply h
  rw [← Text.sameName_iff.mp hsame]
  exact List.mem_map_of_mem hc'

theorem foldl_addColumn (name : String) {first columns : List String}
    (h : ((first ++ columns).map Text.upper).Nodup) :
    columns.foldl (fun d column => (addColumn d column).1) { name, columns := first } =
      { name, columns := first ++ columns } := by
  induction columns generalizing first with
  | nil => rw [List.append_nil]; rfl
  | cons c columns ih =>
    have hnew : Text.upper c ∉ first.map Text.upper := by
      intro hmem
      rw [List.map_append, List.nodup_append] at h
      exact h.2.2 _ hmem _ List.mem_cons_self rfl
    rw [List.foldl_cons, addColumn, column?_eq_none hnew]
    rw [List.append_cons first c columns] at h ⊢
    exact ih h

theorem withColumns_eq (name : String) {columns : List String}
    (h : (columns.map Text.upper).Nodup) : withColumns name columns = { name, columns } :=
  foldl_addColumn name h

/-- Cells in columns of a data set go into a row one behind the other. -/
theorem addCells_eq (h : d.DistinctColumns) {cells row : Row}
    (hc : ∀ cell ∈ cells, cell.1 ∈ d.columns) (hmap : Row.IsMap (row ++ cells)) :
    d.addCells cells row = (d, row ++ cells) := by
  induction cells generalizing row with
  | nil => rw [List.append_nil]; rfl
  | cons cell cells ih =>
    obtain ⟨c, v⟩ := cell
    rw [List.forall_mem_cons] at hc
    have hnew : ∀ other ∈ row, other.1 ≠ c := by
      intro other hother he
      rw [Row.IsMap, List.map_append, List.nodup_append] at hmap
      exact hmap.2.2 _ (List.mem_map_of_mem hother) _ List.mem_cons_self he
    rw [addCells, addColumn, h.column?_of_mem hc.1]
    dsimp only
    rw [Row.insert_of_not_mem hnew, ih hc.2]
    · rw [List.append_assoc, List.singleton_append]
    · rwa [List.append_assoc, List.singleton_append]

theorem pushRow_of_columns (h : d.DistinctColumns) {row : Row} (hrow : row.map (·.1) = d.columns) :
    d.pushRow row = { d with rows := d.rows ++ [row] } := by
  have hcells : ∀ cell ∈ row, cell.1 ∈ d.columns := by
    intro cell hcell
    rw [← hrow]
    exact List.mem_map_of_mem hcell
  have hmap : Row.IsMap ([] ++ row) := by
    rw [List.nil_append, Row.IsMap, hrow]
    exact h.nodup
  rw [pushRow, addCells_eq h hcells hmap]
  rfl

theorem foldl_pushRow (h : d.DistinctColumns) {rows : List Row}
    (hrows : ∀ row ∈ rows, row.map (·.1) = d.columns) :
    rows.foldl pushRow d = { d with rows := d.rows ++ rows } := by
  induction rows generalizing d with
  | nil => rw [List.append_nil]; rfl
  | cons row rows ih =>
    rw [List.forall_mem_cons] at hrows
    rw [List.foldl_cons, pushRow_of_columns h hrows.1]
    refine (ih (d := { d with rows := d.rows ++ [row] }) h hrows.2).trans ?_
    rw [List.append_assoc, List.singleton_append]

end Dataset

end StepLang
