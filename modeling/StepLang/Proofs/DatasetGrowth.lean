import StepLang.Proofs.Dataset

/-! # Growing data sets

Columns, rows of cells and rows that are maps can be added to a data set. Whatever is added, and in
whichever letters, no two columns are the same name, every cell stands under the spelling of its
column, and what was there before stays as it was.
-/

namespace StepLang.Dataset

variable {d d' : Dataset} {c name spelling : String}

/-! ### Spellings -/

theorem column?_congr (d : Dataset) {a b : String} (h : Text.upper a = Text.upper b) :
    d.column? a = d.column? b := by
  have hsame (c : String) : Text.sameName c a = Text.sameName c b := by
    rw [Bool.eq_iff_iff, Text.sameName_iff, Text.sameName_iff, h]
  unfold column?
  simp only [hsame]

theorem mem_of_column? (h : d.column? name = some spelling) : spelling ∈ d.columns :=
  List.mem_of_find?_eq_some h

theorem upper_of_column? (h : d.column? name = some spelling) :
    Text.upper spelling = Text.upper name := by
  have hsame := List.find?_some h
  exact Text.sameName_iff.mp hsame

theorem column?_ne_none (h : c ∈ d.columns) (hname : Text.upper c = Text.upper name) :
    d.column? name ≠ none := fun hnone =>
  List.find?_eq_none.mp hnone c h (Text.sameName_iff.mpr hname)

/-- More columns do not change how a column is spelled. -/
theorem column?_of_isPrefix (h : d.columns <+: d'.columns) (hc : d.column? name = some spelling) :
    d'.column? name = some spelling := by
  obtain ⟨more, hmore⟩ := h
  rw [column?] at hc
  rw [column?, ← hmore, List.find?_append, hc, Option.some_or]

/-! ### Columns -/

theorem addColumn_of_none (h : d.column? c = none) :
    d.addColumn c = ({ d with columns := d.columns ++ [c] }, c) := by
  rw [addColumn, h]

theorem addColumn_of_some (h : d.column? c = some spelling) : d.addColumn c = (d, spelling) := by
  rw [addColumn, h]

/-- A data set with columns added behind its own. -/
structure Widens (d d' : Dataset) : Prop where
  name : d'.name = d.name
  columns : d.columns <+: d'.columns
  rows : d'.rows = d.rows
  distinct : d.DistinctColumns → d'.DistinctColumns

theorem Widens.refl (d : Dataset) : Widens d d := ⟨rfl, List.prefix_rfl, rfl, id⟩

theorem Widens.trans {d'' : Dataset} (h : Widens d d') (h' : Widens d' d'') : Widens d d'' :=
  ⟨h'.name.trans h.name, h.columns.trans h'.columns, h'.rows.trans h.rows, h'.distinct ∘ h.distinct⟩

theorem widens_addColumn (d : Dataset) (c : String) : Widens d (d.addColumn c).1 := by
  cases h : d.column? c with
  | some spelling =>
    rw [addColumn_of_some h]
    exact .refl d
  | none =>
    rw [addColumn_of_none h]
    refine ⟨rfl, List.prefix_append _ _, rfl, fun hd => ?_⟩
    rw [DistinctColumns, List.map_append, List.nodup_append]
    refine ⟨hd, List.nodup_singleton _, ?_⟩
    intro a ha b hb hab
    obtain ⟨c', hc', rfl⟩ := List.mem_map.mp ha
    obtain rfl := List.mem_singleton.mp hb
    exact column?_ne_none hc' hab h

theorem column?_addColumn (d : Dataset) (c : String) :
    (d.addColumn c).1.column? c = some (d.addColumn c).2 := by
  cases h : d.column? c with
  | some spelling => rw [addColumn_of_some h, h]
  | none =>
    rw [addColumn_of_none h]
    rw [column?] at h ⊢
    rw [List.find?_append, h, Option.none_or]
    exact List.find?_cons_of_pos (Text.sameName_iff.mpr rfl)

theorem widens_withColumns (name : String) (columns : List String) :
    Widens { name } (withColumns name columns) :=
  List.foldlRecOn columns _ (motive := Widens { name }) (.refl _)
    fun d hd c _ => hd.trans (widens_addColumn d c)

/-! ### Cells -/

/-- The value of the last of some cells under a name, in any case of letters. -/
def lastCell? (cells : List (String × Value)) (name : String) : Option Value :=
  (cells.reverse.find? fun cell => Text.sameName cell.1 name).map (·.2)

theorem lastCell?_cons (c : String) (v : Value) (cells : List (String × Value)) (name : String) :
    lastCell? ((c, v) :: cells) name =
      (lastCell? cells name).or (if Text.sameName c name then some v else none) := by
  rw [lastCell?, List.reverse_cons, List.find?_append, Option.map_or]
  congr 1
  rw [List.find?_singleton]
  split <;> rfl

/-- The cells of a row stand in columns of the data set, one in each at most. -/
structure Keyed (d : Dataset) (row : Row) : Prop where
  isMap : row.IsMap
  within : ∀ cell ∈ row, cell.1 ∈ d.columns

theorem Keyed.cell?_eq_none {row : Row} (h : d.Keyed row) (hc : c ∉ d.columns) :
    row.cell? c = none := by
  rw [Row.cell?_eq_none_iff]
  intro hmem
  obtain ⟨cell, hcell, rfl⟩ := List.mem_map.mp hmem
  exact hc (h.within cell hcell)

theorem Keyed.mono {row : Row} (h : d.Keyed row) (hc : d.columns <+: d'.columns) : d'.Keyed row :=
  ⟨h.isMap, fun cell hcell => hc.subset (h.within cell hcell)⟩

theorem Keyed.insert {row : Row} (h : d.Keyed row) (hc : c ∈ d.columns) (v : Value) :
    d.Keyed (row.insert c v) := by
  refine ⟨h.isMap.insert c v, fun cell hcell => ?_⟩
  have hkey := (h.isMap.insert c v).cell?_of_mem hcell
  rw [Row.cell?_insert] at hkey
  split at hkey
  · rename_i heq
    rw [heq]
    exact hc
  · exact h.within _ (Row.mem_of_cell? hkey)

/-- A row made of cells: a column that it has in some letters holds the last of the cells given
under that name, and otherwise what was there before. -/
structure Filled (d : Dataset) (cells : List (String × Value)) (before row : Row) : Prop where
  keyed : d.Keyed row
  cell?_eq : ∀ name spelling, d.column? name = some spelling →
    row.cell? spelling = (lastCell? cells name).or (before.cell? spelling)
  none_eq : ∀ name, d.column? name = none → lastCell? cells name = none

/-- The induction is on the cells; the columns and the row grow along with it. -/
theorem filled_addCells (cells : List (String × Value)) {d : Dataset} {row : Row}
    (h : d.Keyed row) : Widens d (d.addCells cells row).1 ∧
      (d.addCells cells row).1.Filled cells row (d.addCells cells row).2 := by
  induction cells generalizing d row with
  | nil => exact ⟨.refl d, h, fun _ _ _ => rfl, fun _ _ => rfl⟩
  | cons cell cells ih =>
    obtain ⟨c, v⟩ := cell
    have hwidens := d.widens_addColumn c
    have hspelled := d.column?_addColumn c
    unfold addCells
    generalize d.addColumn c = added at hwidens hspelled
    obtain ⟨d₁, s₁⟩ := added
    dsimp only at hwidens hspelled ⊢
    have hkeyed : d₁.Keyed (row.insert s₁ v) :=
      (h.mono hwidens.columns).insert (mem_of_column? hspelled) v
    obtain ⟨hwidens', hfilled⟩ := ih hkeyed
    generalize d₁.addCells cells (row.insert s₁ v) = result at hwidens' hfilled
    obtain ⟨d', row'⟩ := result
    dsimp only at hwidens' hfilled ⊢
    have hspelled' := column?_of_isPrefix hwidens'.columns hspelled
    refine ⟨hwidens.trans hwidens', hfilled.keyed, ?_, ?_⟩
    · intro name spelling hname
      have hsame : Text.sameName c name = true ↔ spelling = s₁ := by
        rw [Text.sameName_iff]
        constructor
        · intro hupper
          rw [d'.column?_congr hupper, hname] at hspelled'
          exact Option.some.inj hspelled'
        · rintro rfl
          exact (upper_of_column? hspelled').symm.trans (upper_of_column? hname)
      rw [hfilled.cell?_eq name spelling hname, Row.cell?_insert, lastCell?_cons, Option.or_assoc]
      congr 1
      by_cases hs : spelling = s₁
      · rw [if_pos hs, if_pos (hsame.mpr hs), Option.some_or]
      · rw [if_neg hs, if_neg (mt hsame.mp hs), Option.none_or]
    · intro name hname
      have hne : ¬ Text.sameName c name = true := by
        intro hsame
        rw [d'.column?_congr (Text.sameName_iff.mp hsame), hname] at hspelled'
        cases hspelled'
      rw [lastCell?_cons, hfilled.none_eq name hname, if_neg hne, Option.none_or]

/-! ### Rows that are maps -/

/-- Cells with distinct columns are in the same order however they were listed before. -/
theorem sortCells_eq_of_perm {row row' : Row} (hrow : row.IsMap) (h : row.Perm row') :
    sortCells row = sortCells row' := by
  have hsorted (cells : Row) : (sortCells cells).Pairwise fun a b => a.1 ≤ b.1 := by
    refine (List.pairwise_mergeSort (fun a b c hab hbc => ?_) (fun a b => ?_) cells).imp
      of_decide_eq_true
    · exact decide_eq_true (String.le_trans (of_decide_eq_true hab) (of_decide_eq_true hbc))
    · simpa using String.le_total a.1 b.1
  have hperm := List.mergeSort_perm row fun a b => decide (a.1 ≤ b.1)
  have hperm' := List.mergeSort_perm row' fun a b => decide (a.1 ≤ b.1)
  refine List.Perm.eq_of_pairwise (fun a b ha hb hab hba => ?_) (hsorted row) (hsorted row')
    (hperm.trans (h.trans hperm'.symm))
  obtain ⟨column, v⟩ := a
  obtain ⟨column', w⟩ := b
  obtain rfl : column = column' := String.le_antisymm hab hba
  have hv := hrow.cell?_of_mem (hperm.mem_iff.mp ha)
  have hw := hrow.cell?_of_mem (h.mem_iff.mpr (hperm'.mem_iff.mp hb))
  rw [Option.some.inj (hv.symm.trans hw)]

/-! ### Additions -/

/-- What can be added to a data set: a column, a row of cells in their order, or a row that is a
map. -/
inductive Addition where
  | column (name : String)
  | cells (cells : List (String × Value))
  | row (row : Row)

/-- The cells of an added row in the order in which they are put in; a map has the order of its
columns. -/
def Addition.cells? : Addition → Option (List (String × Value))
  | .column _ => none
  | .cells given => some given
  | .row given => some (sortCells given)

def add (d : Dataset) : Addition → Dataset
  | .column name => (d.addColumn name).1
  | .cells cells => d.pushRow cells
  | .row row => d.addRow row

def addAll (d : Dataset) (additions : List Addition) : Dataset := additions.foldl add d

theorem addAll_nil (d : Dataset) : d.addAll [] = d := rfl

/-- No two columns are the same in any case of letters, and every row has its cells in columns as
they are spelled. -/
structure Canonical (d : Dataset) : Prop where
  distinct : d.DistinctColumns
  keyed : ∀ row ∈ d.rows, d.Keyed row

/-- A data set with columns and rows added behind its own. -/
structure Grows (d d' : Dataset) : Prop where
  name : d'.name = d.name
  columns : d.columns <+: d'.columns
  rows : d.rows <+: d'.rows

theorem Grows.refl (d : Dataset) : Grows d d := ⟨rfl, List.prefix_rfl, List.prefix_rfl⟩

theorem Grows.trans {d'' : Dataset} (h : Grows d d') (h' : Grows d' d'') : Grows d d'' :=
  ⟨h'.name.trans h.name, h.columns.trans h'.columns, h.rows.trans h'.rows⟩

theorem Widens.grows (h : Widens d d') : Grows d d' :=
  ⟨h.name, h.columns, h.rows ▸ List.prefix_rfl⟩

theorem Widens.canonical (h : Widens d d') (hd : d.Canonical) : d'.Canonical := by
  refine ⟨h.distinct hd.distinct, fun row hrow => ?_⟩
  rw [h.rows] at hrow
  exact (hd.keyed row hrow).mono h.columns

theorem canonical_withColumns (name : String) (columns : List String) :
    (withColumns name columns).Canonical :=
  (widens_withColumns name columns).canonical ⟨List.nodup_nil, List.forall_mem_nil _⟩

/-- An added row is the last one, and has the last of its cells under each name. -/
theorem pushRow_eq (d : Dataset) (cells : List (String × Value)) : ∃ row,
    (d.pushRow cells).rows = d.rows ++ [row] ∧ Grows d (d.pushRow cells) ∧
      (d.Canonical → (d.pushRow cells).Canonical) ∧ (d.pushRow cells).Filled cells [] row := by
  have hempty : d.Keyed [] := ⟨List.nodup_nil, List.forall_mem_nil _⟩
  obtain ⟨hwidens, hfilled⟩ := filled_addCells cells hempty
  unfold pushRow
  generalize d.addCells cells [] = result at hwidens hfilled
  obtain ⟨d', row⟩ := result
  dsimp only at hwidens hfilled ⊢
  refine ⟨row, by rw [hwidens.rows], ⟨hwidens.name, hwidens.columns, ?_⟩, fun hd => ?_, ?_⟩
  · rw [hwidens.rows]
    exact List.prefix_append _ _
  · obtain ⟨hdistinct, hkeyed⟩ := hwidens.canonical hd
    refine ⟨hdistinct, fun r hr => ?_⟩
    rcases List.mem_append.mp hr with hr | hr
    · exact (hkeyed r hr).mono List.prefix_rfl
    · obtain rfl := List.mem_singleton.mp hr
      exact hfilled.keyed.mono List.prefix_rfl
  · exact ⟨hfilled.keyed.mono List.prefix_rfl, hfilled.cell?_eq, hfilled.none_eq⟩

theorem add_of_cells? {a : Addition} {cells : List (String × Value)} (h : a.cells? = some cells) :
    d.add a = d.pushRow cells := by
  cases a with
  | column name => cases h
  | cells given =>
    obtain rfl := Option.some.inj h
    rfl
  | row row =>
    obtain rfl := Option.some.inj h
    rfl

theorem grows_add (d : Dataset) (a : Addition) :
    Grows d (d.add a) ∧ (d.Canonical → (d.add a).Canonical) := by
  cases h : a.cells? with
  | some cells =>
    rw [add_of_cells? h]
    obtain ⟨row, -, hgrows, hcanonical, -⟩ := d.pushRow_eq cells
    exact ⟨hgrows, hcanonical⟩
  | none =>
    cases a with
    | column name => exact ⟨(d.widens_addColumn name).grows, (d.widens_addColumn name).canonical⟩
    | cells cells => cases h
    | row row => cases h

theorem grows_addAll (d : Dataset) (additions : List Addition) : Grows d (d.addAll additions) :=
  List.foldlRecOn additions add (motive := Grows d) (.refl d)
    fun d' h a _ => h.trans (d'.grows_add a).1

theorem Canonical.addAll (h : d.Canonical) (additions : List Addition) :
    (d.addAll additions).Canonical :=
  List.foldlRecOn additions add (motive := Canonical) h fun d' hd a _ => (d'.grows_add a).2 hd

/-- A row keeps the cells that it was made of: columns that come later have none in it. -/
theorem get?_of_filled {cells : List (String × Value)} {row : Row} {i : Nat}
    (h : d.Filled cells [] row) (hgrows : Grows d d') (hi : d.rows[i]? = some row) (name : String) :
    d'.get? i name = lastCell? cells name := by
  have hi' : d'.rows[i]? = some row := by
    obtain ⟨more, hmore⟩ := hgrows.rows
    rw [← hmore, List.getElem?_append_left (List.getElem?_eq_some_iff.mp hi).1, hi]
  rw [get?, hi', Option.bind_some, rowCell?]
  cases hc : d.column? name with
  | some spelling =>
    rw [column?_of_isPrefix hgrows.columns hc, Option.bind_some, h.cell?_eq name spelling hc]
    exact Option.or_none
  | none =>
    rw [h.none_eq name hc]
    cases hc' : d'.column? name with
    | none => rfl
    | some spelling =>
      refine h.keyed.cell?_eq_none fun hmem => ?_
      exact column?_ne_none hmem (upper_of_column? hc') hc

/-- Whatever is added to a data set, and in whichever letters: its columns are distinct in any case
of letters, and the cells of its rows stand in columns as they are spelled; columns, their spellings
and rows that are there stay as they are. A row has under every name, in any letters, the cell that
was put in last under that name, however much is added behind it. A row that is a map can be
enumerated in any order. -/
theorem additions_keep_canonical (name : String) (columns : List String)
    (before after : List Addition) :
    ((withColumns name columns).addAll (before ++ after)).Canonical ∧
    Grows ((withColumns name columns).addAll before)
      ((withColumns name columns).addAll (before ++ after)) ∧
    (∀ column spelling, ((withColumns name columns).addAll before).column? column = some spelling →
      ((withColumns name columns).addAll (before ++ after)).column? column = some spelling) ∧
    (∀ a cells, a.cells? = some cells → ∀ column,
      ((withColumns name columns).addAll (before ++ a :: after)).get?
        ((withColumns name columns).addAll before).rows.length column = lastCell? cells column) ∧
    ∀ row row', Row.IsMap row → row.Perm row' →
      ((withColumns name columns).addAll before).addRow row =
        ((withColumns name columns).addAll before).addRow row' := by
  simp only [addAll, List.foldl_append, List.foldl_cons]
  have hcanonical := (canonical_withColumns name columns).addAll before
  rw [addAll] at hcanonical
  generalize before.foldl add (withColumns name columns) = d at hcanonical ⊢
  have hgrows := d.grows_addAll after
  refine ⟨hcanonical.addAll after, hgrows, fun c s => column?_of_isPrefix hgrows.columns, ?_, ?_⟩
  · intro a cells ha column
    obtain ⟨row, hrows, -, -, hfilled⟩ := d.pushRow_eq cells
    rw [add_of_cells? ha]
    refine get?_of_filled hfilled (grows_addAll _ after) ?_ column
    rw [hrows, List.getElem?_append_right (Nat.le_refl _), Nat.sub_self, List.getElem?_cons_zero]
  · intro row row' hrow hperm
    rw [addRow, addRow, sortCells_eq_of_perm hrow hperm]

/-- A column given twice, a cell given twice under two spellings, and a map with two spellings of
one name in either order. -/
theorem additions_keep_canonical_spellings :
    ((withColumns "t" ["Region", "REGION"]).addAll
      [.cells [("AMOUNT", .number 1.0), ("region", .text "n"), ("Amount", .number 2.0)],
        .row [("amount", .missing), ("Zone", .text "z")]]).get? 0 "amount" = some (.number 2.0) ∧
    ((withColumns "t" ["Region", "REGION"]).addAll
      [.cells [("AMOUNT", .number 1.0), ("region", .text "n"), ("Amount", .number 2.0)],
        .row [("amount", .missing), ("Zone", .text "z")]]).get? 0 "ZONE" = none ∧
    (withColumns "t" ["Region", "REGION"]).addRow [("x", .text "a"), ("X", .text "b")] =
      (withColumns "t" ["Region", "REGION"]).addRow [("X", .text "b"), ("x", .text "a")] := by
  obtain ⟨-, -, -, hget, horder⟩ := additions_keep_canonical "t" ["Region", "REGION"] []
    [.row [("amount", .missing), ("Zone", .text "z")]]
  rw [addAll_nil] at hget horder
  rw [(widens_withColumns "t" _).rows, List.length_nil] at hget
  have hcells := hget
    (.cells [("AMOUNT", .number 1.0), ("region", .text "n"), ("Amount", .number 2.0)]) _ rfl
  rw [List.nil_append] at hcells
  have hamount : Text.sameName "Amount" "amount" = true :=
    Text.sameName_iff.mpr (by simp [Text.upper, ← String.toList_inj])
  have hregion : Text.sameName "region" "ZONE" = false := rfl
  have hzone : Text.sameName "AMOUNT" "ZONE" = false := rfl
  have hzone' : Text.sameName "Amount" "ZONE" = false := rfl
  refine ⟨?_, ?_, ?_⟩
  · rw [hcells "amount", lastCell?]
    simp [hamount]
  · rw [hcells "ZONE", lastCell?]
    simp [hregion, hzone, hzone']
  · exact horder _ _ (by decide) (.swap _ _ _)

end StepLang.Dataset
