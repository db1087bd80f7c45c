import StepLang.Proofs.Dataset
import StepLang.Proofs.FileTree
import StepLang.Proofs.Json.RoundTrip
import StepLang.Proofs.NumberPacking
import StepLang.Proofs.Text.Utf8
import StepLang.Storage

/-! # Data sets in JSON files

A data set is read from its file as it was written there, in whatever order the cells of its rows
are written: with its columns in their order, and with every cell a number, missing or a text as it
was.
-/

namespace StepLang

namespace Storage

open Json

def PlainNumber (v : Value) : Prop := ∀ x, v = .number x → x.isNaN = true ∨ x.isFinite = true

/-- The text of a finite number reads back as the number. -/
def NumberReadsBack (v : Value) : Prop :=
  ∀ x, v = .number x → x.isFinite = true →
    readNumber (numberText x).toList = some (.number x, [])

theorem cellOf?_cellDocument {v : Value} (h : PlainNumber v) :
    cellOf? (cellDocument v) = some v := by
  cases v with
  | text s => rfl
  | number x =>
    unfold cellDocument
    dsimp only
    cases hx : x.isNaN with
    | true =>
      rw [eq_missing_of_isNaN hx]
      rfl
    | false =>
      have hfinite : x.isFinite = true :=
        (h x rfl).resolve_left (by rw [hx]; exact Bool.false_ne_true)
      rw [if_neg Bool.false_ne_true, cellOf?, if_pos hfinite]

theorem exact_cellDocument {v : Value} (h : PlainNumber v) (hread : NumberReadsBack v) :
    (cellDocument v).Exact := by
  cases v with
  | text s => exact .text s
  | number x =>
    unfold cellDocument
    dsimp only
    split
    · exact .null
    · next hx => exact .number (hread x rfl ((h x rfl).resolve_left hx))

theorem foldlM_cells {row acc : Row} (hcells : ∀ cell ∈ row, PlainNumber cell.2)
    (hmap : Row.IsMap (acc ++ row)) :
    (row.map fun (column, v) => (column, cellDocument v)).foldlM
      (fun (row : Row) (column, d) => return row.insert column (← cellOf? d)) acc =
        some (acc ++ row) := by
  induction row generalizing acc with
  | nil => exact congrArg some (List.append_nil acc).symm
  | cons cell row ih =>
    obtain ⟨column, v⟩ := cell
    rw [List.forall_mem_cons] at hcells
    have hnew : ∀ other ∈ acc, other.1 ≠ column := by
      intro other hother he
      rw [Row.IsMap, List.map_append, List.nodup_append] at hmap
      exact hmap.2.2 _ (List.mem_map_of_mem hother) _ (List.mem_cons_self ..) he
    have hv : cellOf? (cellDocument v) = some v := cellOf?_cellDocument hcells.1
    rw [List.map_cons, List.foldlM_cons]
    dsimp only
    rw [hv]
    change List.foldlM _ (Row.insert acc column v) _ = _
    rw [Row.insert_of_not_mem hnew, ih hcells.2]
    · rw [List.append_assoc, List.singleton_append]
    · rwa [List.append_assoc, List.singleton_append]

theorem rowOf?_record {row : Row} (hmap : row.IsMap) (hcells : ∀ cell ∈ row, PlainNumber cell.2) :
    rowOf? (.record (row.map fun (column, v) => (column, cellDocument v))) = some row := by
  rw [rowOf?]
  exact foldlM_cells hcells hmap

theorem listOf?_map {α : Type} {f : Document → Option α} {g : α → Document} {xs : List α}
    (h : ∀ x ∈ xs, f (g x) = some x) : listOf? f (.list (xs.map g)) = some xs := by
  rw [listOf?]
  induction xs with
  | nil => rfl
  | cons x xs ih =>
    rw [List.forall_mem_cons] at h
    rw [List.map_cons, List.mapM_cons, h.1, ih h.2]
    rfl

/-- A data set that JSON can hold: it has a name, its rows are maps, and its numbers are missing or
finite. -/
structure Plain (d : Dataset) : Prop where
  named : d.name.isEmpty = false
  maps : ∀ row ∈ d.rows, row.IsMap
  numbers : ∀ row ∈ d.rows, ∀ cell ∈ row, PlainNumber cell.2

theorem Plain.reordered {d d' : Dataset} (h : Plain d) (hd : d.Reordered d') : Plain d' := by
  constructor
  · rw [hd.name]
    exact h.named
  · exact hd.forall_rows Row.IsMap.perm h.maps
  · exact hd.forall_rows (fun hp hr cell hcell => hr cell (hp.mem_iff.mpr hcell)) h.numbers

theorem datasetOf?_datasetDocument {d : Dataset} (h : Plain d) :
    datasetOf? (datasetDocument d) = some d := by
  have hcolumns : listOf? textOf? (.list (d.columns.map .text)) = some d.columns :=
    listOf?_map fun _ _ => rfl
  have hrows : listOf? rowOf? (.list (d.rows.map fun row =>
      .record (row.map fun (column, v) => (column, cellDocument v)))) = some d.rows :=
    listOf?_map fun row hrow => rowOf?_record (h.maps row hrow) (h.numbers row hrow)
  -- The members are looked up by name; that they are written in this order does not matter.
  have hname (a b c : Document) :
      required? [("name", a), ("columns", b), ("rows", c)] "name" = some a := by
    simp [required?, member?]
  have hsecond (a b c : Document) :
      required? [("name", a), ("columns", b), ("rows", c)] "columns" = some b := by
    simp [required?, member?]
  have hthird (a b c : Document) :
      required? [("name", a), ("columns", b), ("rows", c)] "rows" = some c := by
    simp [required?, member?]
  simp only [datasetDocument, datasetOf?, hname, hsecond, hthird, Option.bind_eq_bind,
    Option.bind_some, datasetOf?.build, textOf?, hcolumns, hrows]
  rfl

theorem exact_datasetDocument {d : Dataset} (h : Plain d)
    (hread : ∀ row ∈ d.rows, ∀ cell ∈ row, NumberReadsBack cell.2) :
    (datasetDocument d).Exact := by
  unfold datasetDocument
  apply Document.Exact.record
  simp only [List.forall_mem_cons, List.not_mem_nil, false_imp_iff, implies_true, and_true]
  refine ⟨.text _, ?_, ?_⟩
  · apply Document.Exact.list
    simp only [List.forall_mem_map]
    exact fun column _ => .text column
  · apply Document.Exact.list
    simp only [List.forall_mem_map]
    intro row hrow
    apply Document.Exact.record
    simp only [List.forall_mem_map]
    exact fun cell hcell =>
      exact_cellDocument (h.numbers row hrow cell hcell) (hread row hrow cell hcell)

theorem ofJson_toJson {d : Dataset} (h : Plain d)
    (hread : ∀ row ∈ d.rows, ∀ cell ∈ row, NumberReadsBack cell.2) :
    ofJson (toJson d) = .ok d := by
  rw [ofJson, toJson, read?_write (exact_datasetDocument h hread), Option.bind_some,
    datasetOf?_datasetDocument h]

/-- A JSON file holds the data set that was written to it: whatever the order in which the cells of
its rows are written, the data set that is loaded has the name, the columns in their order, and in
every row the same cells. -/
theorem load_save_json {d d' : Dataset} {files : FileTree} {path : String} (h : Plain d)
    (hread : ∀ row ∈ d.rows, ∀ cell ∈ row, NumberReadsBack cell.2) (hd : d.Reordered d')
    (hw : files.Writable path) :
    ∃ files', Engine.json.save files path d' = .ok files' ∧
      ∃ loaded, Engine.json.load files' path = .ok loaded ∧ d.Reordered loaded := by
  have h' := h.reordered hd
  have hread' := hd.forall_rows (P := fun row => ∀ cell ∈ row, NumberReadsBack cell.2)
    (fun hp hr cell hcell => hr cell (hp.mem_iff.mpr hcell)) hread
  obtain ⟨files', hsave, hload⟩ := Engine.load_of_save hw .json d'
  refine ⟨files', hsave, d', ?_, hd⟩
  rw [hload]
  unfold Engine.decode
  dsimp only
  rw [Text.decode_toUTF8]
  dsimp only
  rw [show ofJson (Engine.json.encode d') = .ok d' from ofJson_toJson h' hread']
  exact congrArg Except.ok (if_neg (by rw [h'.named]; exact Bool.false_ne_true))

/-- Rows with some of their cells, and texts that look like something else. -/
def oddCells : Dataset where
  name := "odd"
  columns := ["id", "cost"]
  rows := [[("id", .text "1.5"), ("cost", .number 2.5)], [("cost", .missing)],
    [("cost", .text "null"), ("id", .text ".")], []]

/-- The same with the cells of a row the other way round. -/
def oddCellsTurned : Dataset :=
  { oddCells with rows := [[("cost", .number 2.5), ("id", .text "1.5")], [("cost", .missing)],
    [("id", .text "."), ("cost", .text "null")], []] }

theorem load_save_json_odd : ∃ files', Engine.json.save {} "v" oddCellsTurned = .ok files' ∧
    ∃ loaded, Engine.json.load files' "v" = .ok loaded ∧ oddCells.Reordered loaded := by
  have hvalue : Numeral.value ⟨25, -1⟩ = 2.5 := by
    rw [Numeral.value, Numeral.scale, if_pos (by decide), if_neg (by decide)]
    decide +kernel
  have hnumber : readNumber (numberText 2.5).toList = some (.number 2.5, []) := by
    have htext : numberText 2.5 = "2.5" := by decide +kernel
    have hread : readNumber "2.5".toList = some (.number (Numeral.value ⟨25, -1⟩), []) := rfl
    rw [htext, hread, hvalue]
  have hplain : Plain oddCells := by
    constructor
    · decide +kernel
    · decide +kernel
    · simp only [oddCells, List.forall_mem_cons, List.not_mem_nil, false_imp_iff, implies_true,
        and_true]
      refine ⟨⟨?_, ?_⟩, ?_, ?_, ?_⟩
      · rintro _ ⟨⟩
      · rintro _ ⟨⟩
        exact .inr (by decide +kernel)
      · rintro _ ⟨⟩
        exact .inl (by decide +kernel)
      · rintro _ ⟨⟩
      · rintro _ ⟨⟩
  have hread : ∀ row ∈ oddCells.rows, ∀ cell ∈ row, NumberReadsBack cell.2 := by
    simp only [oddCells, List.forall_mem_cons, List.not_mem_nil, false_imp_iff, implies_true,
      and_true]
    refine ⟨⟨?_, ?_⟩, ?_, ?_, ?_⟩
    · rintro _ ⟨⟩
    · rintro _ ⟨⟩ _
      exact hnumber
    · rintro _ ⟨⟩ hfinite
      exact absurd hfinite (by decide +kernel)
    · rintro _ ⟨⟩
    · rintro _ ⟨⟩
  have hturned : oddCells.Reordered oddCellsTurned := by
    constructor
    · rfl
    · rfl
    · exact .cons (.swap _ _ []) (.cons .rfl (.cons (.swap _ _ []) (.cons .rfl .nil)))
  have hplace : ({} : FileTree).resolve "v" = .ok ["v"] := by
    rw [FileTree.resolve, FileTree.components_ofList_singleton (by decide)]
    rfl
  exact load_save_json hplain hread hturned
    ⟨["v"], hplace, by simp [FileTree.node?], by decide +kernel⟩

end Storage

end StepLang
