import StepLang.Proofs.DataStep.InputRows

/-! # Joined rows

A joined row has the cells of all its rows, and where several rows have a column, the cell of the
last of them. If every column has one spelling only, the same holds for columns in any case of
letters.
-/

namespace StepLang

namespace Row

/-- No two cells have the same column. -/
def IsMap (r : Row) : Prop := (r.map (·.1)).Nodup

instance (r : Row) : Decidable r.IsMap := inferInstanceAs (Decidable (r.map (·.1)).Nodup)

theorem cell?_cons (column : String) (value : Value) (r : Row) (name : String) :
    cell? ((column, value) :: r) name = if name = column then some value else cell? r name := by
  unfold cell?
  by_cases h : name = column
  · simp [h]
  · simp [List.lookup_cons, h, beq_false_of_ne h]

theorem cell?_eq_none_iff {r : Row} {name : String} :
    r.cell? name = none ↔ name ∉ r.map (·.1) := by
  induction r with
  | nil => simp [cell?]
  | cons cell r ih =>
    obtain ⟨column, value⟩ := cell
    by_cases h : name = column
    · simp [cell?_cons, h]
    · simp [cell?_cons, h, ih]

theorem mem_of_cell? {r : Row} {name : String} {value : Value} (h : r.cell? name = some value) :
    (name, value) ∈ r := by
  induction r with
  | nil => cases h
  | cons cell r ih =>
    obtain ⟨column, value'⟩ := cell
    rw [cell?_cons] at h
    split at h
    · obtain rfl := Option.some.inj h
      subst name
      exact List.mem_cons_self
    · exact List.mem_cons_of_mem _ (ih h)

theorem IsMap.cell?_of_mem {r : Row} (hr : r.IsMap) {name : String} {value : Value}
    (h : (name, value) ∈ r) : r.cell? name = some value := by
  induction r with
  | nil => cases h
  | cons cell r ih =>
    obtain ⟨column, value'⟩ := cell
    obtain ⟨hnew, hr⟩ := List.nodup_cons.mp hr
    rw [cell?_cons]
    rcases List.mem_cons.mp h with heq | hm
    · obtain ⟨rfl, rfl⟩ := Prod.mk.inj heq
      exact if_pos rfl
    · rw [if_neg, ih hr hm]
      rintro rfl
      exact hnew (List.mem_map.mpr ⟨_, hm, rfl⟩)

theorem cell?_insert (r : Row) (column name : String) (value : Value) :
    (r.insert column value).cell? name = if name = column then some value else r.cell? name := by
  induction r with
  | nil => exact cell?_cons column value [] name
  | cons cell r ih =>
    obtain ⟨column', old⟩ := cell
    unfold insert
    by_cases hc : column' = column
    · subst hc
      rw [if_pos rfl, cell?_cons, cell?_cons]
      split <;> rfl
    · rw [if_neg hc, cell?_cons, cell?_cons, ih]
      by_cases h : name = column'
      · subst h
        simp [hc]
      · simp [h]

theorem IsMap.cell?_union {s : Row} (hs : s.IsMap) (r : Row) (name : String) :
    (r.union s).cell? name = (s.cell? name).or (r.cell? name) := by
  unfold union
  induction s generalizing r with
  | nil => rfl
  | cons cell s ih =>
    obtain ⟨column, value⟩ := cell
    obtain ⟨hnew, hs⟩ := List.nodup_cons.mp hs
    rw [List.foldl_cons, ih hs, cell?_insert, cell?_cons]
    by_cases h : name = column
    · subst h
      rw [cell?_eq_none_iff.mpr hnew]
      simp
    · simp [h]

theorem IsMap.insert {r : Row} (hr : r.IsMap) (column : String) (value : Value) :
    (r.insert column value).IsMap := by
  induction r with
  | nil => simp [Row.insert, IsMap]
  | cons cell r ih =>
    obtain ⟨column', old⟩ := cell
    obtain ⟨hnew, hr⟩ := List.nodup_cons.mp hr
    unfold Row.insert
    split
    · exact List.nodup_cons.mpr ⟨hnew, hr⟩
    · next hne =>
      refine List.nodup_cons.mpr ⟨?_, ih hr⟩
      have hnone : (Row.insert r column value).cell? column' = none := by
        rw [cell?_insert, if_neg hne]
        exact cell?_eq_none_iff.mpr hnew
      exact cell?_eq_none_iff.mp hnone

theorem IsMap.union {r : Row} (hr : r.IsMap) (s : Row) : (r.union s).IsMap := by
  unfold Row.union
  induction s generalizing r with
  | nil => exact hr
  | cons cell s ih => exact ih (hr.insert cell.1 cell.2)

section Spelling

variable {columns : List String} {name : String}

/-- No two columns differ in the case of letters only. -/
def SpelledAlike (columns : List String) : Prop :=
  ∀ a ∈ columns, ∀ b ∈ columns, Text.upper a = Text.upper b → a = b

theorem get?_eq_cell? (hc : SpelledAlike columns) {spelling : String} (hs : spelling ∈ columns)
    (hn : Text.upper spelling = Text.upper name) {r : Row} (hr : r.Within (· ∈ columns)) :
    r.get? name = r.cell? spelling := by
  unfold get?
  cases hv : r.cell? name with
  | some v =>
    obtain rfl : name = spelling := hc _ (hr _ (mem_of_cell? hv)) _ hs hn.symm
    exact hv.symm
  | none =>
    have hmatch : ∀ cell ∈ r, (Text.sameName cell.1 name = true ↔ cell.1 = spelling) := by
      intro cell hm
      rw [Text.sameName_iff, ← hn]
      exact ⟨hc _ (hr cell hm) _ hs, congrArg Text.upper⟩
    clear hv hr
    induction r with
    | nil => rfl
    | cons cell r ih =>
      obtain ⟨column, value⟩ := cell
      have hhead := hmatch _ List.mem_cons_self
      have hrest := ih fun cell hm => hmatch cell (List.mem_cons_of_mem _ hm)
      rw [cell?_cons]
      by_cases h : column = spelling
      · subst h
        simp [hhead.mpr rfl]
      · have hne : Text.sameName column name = false :=
          Bool.eq_false_iff.mpr fun ht => h (hhead.mp ht)
        simpa [List.find?_cons, hne, Ne.symm h] using hrest

theorem get?_eq_none (hn : ∀ a ∈ columns, Text.upper a ≠ Text.upper name) {r : Row}
    (hr : r.Within (· ∈ columns)) : r.get? name = none := by
  have hcell : r.cell? name = none := by
    rw [cell?_eq_none_iff]
    intro hm
    obtain ⟨cell, hc, rfl⟩ := List.mem_map.mp hm
    exact hn _ (hr cell hc) rfl
  simp only [get?, hcell]
  rw [List.find?_eq_none.mpr]
  · rfl
  · intro cell hc ht
    exact hn _ (hr cell hc) (Text.sameName_iff.mp ht)

end Spelling

end Row

namespace DataStep

theorem isMap_joinRows (rows : List Row) : (joinRows rows).IsMap := by
  have hfold : ∀ r : Row, r.IsMap → (rows.foldl Row.union r).IsMap := by
    induction rows with
    | nil => exact fun _ hr => hr
    | cons s rows ih => exact fun r hr => ih _ (hr.union s)
  exact hfold [] List.nodup_nil

/-- The cell of a column in a joined row is that of the last row that has one. -/
theorem cell?_joinRows {rows : List Row} (h : ∀ r ∈ rows, r.IsMap) (name : String) :
    (joinRows rows).cell? name = rows.reverse.findSome? (·.cell? name) := by
  have hfold : ∀ r : Row, (rows.foldl Row.union r).cell? name =
      (rows.reverse.findSome? (·.cell? name)).or (r.cell? name) := by
    induction rows with
    | nil => exact fun _ => rfl
    | cons s rows ih =>
      intro r
      rw [List.foldl_cons, ih fun t ht => h t (List.mem_cons_of_mem _ ht),
        (h s List.mem_cons_self).cell?_union]
      simp [Option.or_assoc]
  rw [joinRows, hfold]
  exact Option.or_none

/-- If every column has one spelling, the value of a name in a joined row is that of the last row
that has one. -/
theorem get?_joinRows {columns : List String} (hc : Row.SpelledAlike columns) {rows : List Row}
    (h : ∀ r ∈ rows, r.IsMap) (hr : ∀ r ∈ rows, r.Within (· ∈ columns)) (name : String) :
    (joinRows rows).get? name = rows.reverse.findSome? (·.get? name) := by
  by_cases hs : ∃ spelling ∈ columns, Text.upper spelling = Text.upper name
  · obtain ⟨spelling, hs, hn⟩ := hs
    rw [Row.get?_eq_cell? hc hs hn (within_joinRows hr), cell?_joinRows h]
    have hget : ∀ r ∈ rows.reverse, r.cell? spelling = r.get? name := fun r hm =>
      (Row.get?_eq_cell? hc hs hn (hr r (List.mem_reverse.mp hm))).symm
    calc rows.reverse.findSome? (·.cell? spelling)
        = (rows.reverse.map (·.cell? spelling)).findSome? id := by
          rw [List.findSome?_map]
          rfl
      _ = (rows.reverse.map (·.get? name)).findSome? id := by rw [List.map_congr_left hget]
      _ = rows.reverse.findSome? (·.get? name) := by
          rw [List.findSome?_map]
          rfl
  · have hnone : ∀ a ∈ columns, Text.upper a ≠ Text.upper name := fun a ha hn => hs ⟨a, ha, hn⟩
    rw [Row.get?_eq_none hnone (within_joinRows hr), eq_comm, List.findSome?_eq_none_iff]
    exact fun r hm => Row.get?_eq_none hnone (hr r (List.mem_reverse.mp hm))

end DataStep

end StepLang
