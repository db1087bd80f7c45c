import Mathlib.Data.List.GetD
import StepLang.Proofs.Csv
import StepLang.Proofs.Dataset
import StepLang.Proofs.FileTree
import StepLang.Proofs.NumberCounts
import StepLang.Proofs.Text.Letters

/-! # Data sets in files of comma-separated values

A data set whose columns each hold values of one kind is read from its file as it was written there.
The mark behind the name of a column of texts is what keeps its cells texts, whatever they look
like.
-/

namespace StepLang

/-! ### Texts without blanks -/

namespace Text

theorem dropWhile_isBlank {cs : List Char} (h : ∀ c ∈ cs, isBlank c = false) :
    cs.dropWhile isBlank = cs := by
  cases cs with
  | nil => rfl
  | cons c cs => exact List.dropWhile_cons_of_neg (by simp [h c List.mem_cons_self])

theorem trimEnd_of_forall {s : String} (h : ∀ c ∈ s.toList, isBlank c = false) :
    trimEnd s = s := by
  rw [trimEnd, dropWhile_isBlank fun c hc => h c (List.mem_reverse.mp hc), List.reverse_reverse,
    String.ofList_toList]

theorem trim_of_forall {s : String} (h : ∀ c ∈ s.toList, isBlank c = false) : trim s = s := by
  rw [trim, trimStart, dropWhile_isBlank h, String.ofList_toList, trimEnd_of_forall h]

theorem isBlank_of_isDigit {c : Char} (h : c.isDigit = true) : isBlank c = false := by
  simp only [Char.isDigit, Bool.and_eq_true, decide_eq_true_eq, UInt32.le_iff_toNat_le,
    ge_iff_le] at h
  have hzero : '0'.val.toNat = 48 := rfl
  have hnine : '9'.val.toNat = 57 := rfl
  have hval : c.val.toNat = c.toNat := rfl
  simp only [isBlank, Bool.or_eq_false_iff, Bool.and_eq_false_iff, decide_eq_false_iff_not,
    beq_eq_false_iff_ne]
  omega

end Text

namespace Number

open Text

theorem isBlank_of_mem_toText {d : Decimal} :
    ∀ c ∈ d.toText.toList, isBlank c = false := by
  have hdigits : ∀ c ∈ Nat.toDigits 10 d.digits, isBlank c = false := fun c hc =>
    isBlank_of_isDigit (Nat.isDigit_of_mem_toDigits (by decide) (by decide) hc)
  have hzeros (n : Nat) : ∀ c ∈ List.replicate n '0', isBlank c = false := by
    intro c hc
    rw [List.eq_of_mem_replicate hc]
    decide
  unfold Decimal.toText
  dsimp only
  split
  · rw [String.toList_ofList]
    exact List.forall_mem_append.mpr ⟨hdigits, hzeros _⟩
  · rw [String.toList_ofList]
    have hpadded : ∀ c ∈ List.replicate (d.exponent.natAbs + 1 - (Nat.toDigits 10 d.digits).length)
        '0' ++ Nat.toDigits 10 d.digits, isBlank c = false :=
      List.forall_mem_append.mpr ⟨hzeros _, hdigits⟩
    refine List.forall_mem_append.mpr ⟨?_, List.forall_mem_cons.mpr ⟨by decide, ?_⟩⟩
    · exact fun c hc => hpadded c (List.mem_of_mem_take hc)
    · exact fun c hc => hpadded c (List.mem_of_mem_drop hc)

theorem trim_toText (x : Float) : trim (toText x) = toText x := by
  have hsign (negative : Bool) {s : String} (h : ∀ c ∈ s.toList, isBlank c = false) :
      ∀ c ∈ (withSign negative s).toList, isBlank c = false := by
    unfold withSign
    split
    · rw [String.toList_append]
      exact List.forall_mem_append.mpr ⟨by simp [isBlank], h⟩
    · exact h
  apply trim_of_forall
  unfold toText
  split
  · simp [isBlank]
  · exact hsign _ (by simp [isBlank])
  · exact hsign _ isBlank_of_mem_toText

theorem read?_toText_of_infinite {x : Float} (hx : x.isNaN = false) (hf : x.isFinite = false) :
    read? (toText x) = some x := by
  change x.toModel.unpack.isNaN = false at hx
  change x.toModel.unpack.isFinite = false at hf
  have hparts := parts_eq_unpackedParts x
  cases hu : x.toModel.unpack with
  | notANumber => rw [hu] at hx; cases hx
  | zero s => rw [hu] at hf; cases hf
  | finite s m e hm => rw [hu] at hf; cases hf
  | infinity s =>
    rw [hu] at hparts
    cases s with
    | positive =>
      have hx : x = 1.0 / 0.0 := eq_of_unpack_eq hu
      rw [hx]
      decide +kernel
    | negative =>
      have hx : x = -(1.0 / 0.0) := eq_of_unpack_eq hu
      rw [hx]
      decide +kernel

end Number

namespace Storage

open Csv

/-- A letter or an underscore, and further letters, digits and underscores. -/
def IsIdentifier (name : String) : Prop :=
  ∃ c cs, name.toList = c :: cs ∧ Text.isNameStart c = true ∧ cs.all Text.isNameChar = true

/-- The text of a finite number reads back as the number. -/
def TextReadsBack (v : Value) : Prop :=
  ∀ x, v = .number x → x.isFinite = true → Number.read? (Number.toText x) = some x

/-- A data set that lines of text can hold: its columns are identifiers that are distinct in any
case of letters, every row has just these columns, and the values of a column are of one kind. -/
structure Tabular (d : Dataset) : Prop where
  columns : d.columns ≠ []
  names : ∀ c ∈ d.columns, IsIdentifier c
  distinct : d.DistinctColumns
  cells : ∀ row ∈ d.rows, (row.map (·.1)).Perm d.columns
  kinds : ∀ c ∈ d.columns, ∃ kind : Kind, ∀ row ∈ d.rows, ∀ v, (c, v) ∈ row → v.kind = kind

/-! ### Headers -/

theorem bounds_of_isNameChar {c : Char} (h : Text.isNameChar c = true) :
    48 ≤ c.toNat ∧ c.toNat ≤ 122 := by
  rw [Text.isNameChar_iff, Text.isNameStart_iff] at h
  omega

theorem IsIdentifier.isNameChar {name : String} (h : IsIdentifier name) :
    ∀ c ∈ name.toList, Text.isNameChar c = true := by
  obtain ⟨c, cs, hname, hstart, hall⟩ := h
  rw [hname, List.forall_mem_cons]
  constructor
  · exact Text.isNameChar_iff.mpr (.inl hstart)
  · exact List.all_eq_true.mp hall

theorem IsIdentifier.isBlank {name : String} (h : IsIdentifier name) :
    ∀ c ∈ name.toList, Text.isBlank c = false :=
  fun c hc => Text.isBlank_of_isNameChar (h.isNameChar c hc)

/-- The header of a column of texts is read as its name with a mark. -/
theorem headerColumn_marked {name : String} (h : IsIdentifier name) :
    headerColumn (name ++ "$") = (name, true) := by
  have htrim : Text.trim (name ++ "$") = name ++ "$" := by
    apply Text.trim_of_forall
    rw [String.toList_append]
    exact List.forall_mem_append.mpr ⟨h.isBlank, by simp [Text.isBlank]⟩
  have hlist : (name ++ "$").toList.reverse = '$' :: name.toList.reverse := by simp
  unfold headerColumn
  dsimp only
  rw [htrim, hlist]
  change (Text.trimEnd (String.ofList name.toList.reverse.reverse), true) = _
  rw [List.reverse_reverse, String.ofList_toList, Text.trimEnd_of_forall h.isBlank]

theorem headerColumn_unmarked {name : String} (h : IsIdentifier name) :
    headerColumn name = (name, false) := by
  unfold headerColumn
  dsimp only
  rw [Text.trim_of_forall h.isBlank]
  split
  · next rest hlist =>
    have hmem : '$' ∈ name.toList := by
      rw [← List.mem_reverse, hlist]
      exact List.mem_cons_self
    exact absurd (h.isNameChar _ hmem) (by decide)
  · rfl

/-! ### Cells -/

/-- A value in the kind of its column reads back from its cell. -/
theorem cellValue_cellText {v : Value} {character : Bool}
    (hkind : v.kind = if character then .character else .numeric) (hread : TextReadsBack v) :
    cellValue (!character) (cellText character v) = v ∧
      (character = false → isNumeric (cellText character v) = true) := by
  cases v with
  | text s =>
    cases character with
    | false => cases hkind
    | true => exact ⟨rfl, fun h => nomatch h⟩
  | number x =>
    cases character with
    | true => cases hkind
    | false =>
      unfold cellText
      dsimp only
      cases hx : x.isNaN with
      | true =>
        rw [eq_missing_of_isNaN hx]
        exact ⟨by decide +kernel, fun _ => by decide +kernel⟩
      | false =>
        have hread : Number.read? (Number.toText x) = some x := by
          cases hf : x.isFinite with
          | true => exact hread x rfl hf
          | false => exact Number.read?_toText_of_infinite hx hf
        constructor
        · change (if true = true then _ else _) = _
          rw [if_pos rfl, if_neg Bool.false_ne_true, Number.trim_toText, hread, Option.getD_some]
        · intro _
          rw [if_neg Bool.false_ne_true, isNumeric, Number.trim_toText, hread, Option.isSome_some,
            Bool.or_true]

def valueAt (row : Row) (c : String) : Value := (row.cell? c).getD .missing

namespace Tabular

variable {d : Dataset} (h : Tabular d)
include h

theorem isMap {row : Row} (hrow : row ∈ d.rows) : row.IsMap :=
  (h.cells row hrow).nodup_iff.mpr h.distinct.nodup

theorem mem_row {row : Row} (hrow : row ∈ d.rows) {c : String} (hc : c ∈ d.columns) :
    (c, valueAt row c) ∈ row := by
  obtain ⟨⟨c', v⟩, hcell, rfl⟩ := List.mem_map.mp ((h.cells row hrow).mem_iff.mpr hc)
  rw [valueAt, (h.isMap hrow).cell?_of_mem hcell]
  exact hcell

theorem rowCell?_eq {row : Row} (hrow : row ∈ d.rows) {c : String} (hc : c ∈ d.columns) :
    d.rowCell? row c = some (valueAt row c) := by
  rw [Dataset.rowCell?, h.distinct.column?_of_mem hc, Option.bind_some,
    (h.isMap hrow).cell?_of_mem (h.mem_row hrow hc)]

theorem kind_valueAt {row : Row} (hrow : row ∈ d.rows) {c : String} (hc : c ∈ d.columns) :
    (valueAt row c).kind = if hasText d c then .character else .numeric := by
  obtain ⟨kind, hkind⟩ := h.kinds c hc
  have hv := hkind row hrow _ (h.mem_row hrow hc)
  cases htext : hasText d c with
  | true =>
    obtain ⟨row', hrow', htext⟩ := List.any_eq_true.mp htext
    have hv' := hkind row' hrow' _ (h.mem_row hrow' hc)
    rw [h.rowCell?_eq hrow' hc] at htext
    cases hvalue : valueAt row' c with
    | number x => rw [hvalue] at htext; cases htext
    | text s =>
      rw [hvalue] at hv'
      rw [hv, ← hv']
      rfl
  | false =>
    have hnone := List.any_eq_false.mp htext row hrow
    rw [h.rowCell?_eq hrow hc] at hnone
    cases hvalue : valueAt row c with
    | number x => rfl
    | text s =>
      rw [hvalue] at hnone
      exact absurd rfl hnone

end Tabular

/-! ### Data sets -/

def headerOf (d : Dataset) : List String :=
  d.columns.map fun c => if hasText d c then c ++ "$" else c

def recordOf (d : Dataset) (row : Row) : List String :=
  d.columns.map fun c => cellText (hasText d c) (valueAt row c)

theorem toCsv_eq (d : Dataset) : toCsv d = Csv.write (headerOf d :: d.rows.map (recordOf d)) := by
  unfold toCsv Dataset.orderedValues
  simp only [List.zipWith_map_right, List.zipWith_map_left, List.zipWith_self]
  rfl

section

variable {d : Dataset} (h : Tabular d)
include h

theorem map_headerColumn :
    (headerOf d).map headerColumn = d.columns.map fun c => (c, hasText d c) := by
  rw [headerOf, List.map_map]
  apply List.map_congr_left
  intro c hc
  rw [Function.comp_apply]
  cases hasText d c with
  | true => exact headerColumn_marked (h.names c hc)
  | false => exact headerColumn_unmarked (h.names c hc)

variable (hread : ∀ row ∈ d.rows, ∀ cell ∈ row, TextReadsBack cell.2)
include hread

theorem cell_reads_back {row : Row} (hrow : row ∈ d.rows) {c : String} (hc : c ∈ d.columns) :
    cellValue (!hasText d c) (cellText (hasText d c) (valueAt row c)) = valueAt row c ∧
      (hasText d c = false → isNumeric (cellText (hasText d c) (valueAt row c)) = true) :=
  cellValue_cellText (h.kind_valueAt hrow hc) (hread row hrow _ (h.mem_row hrow hc))

omit h hread in
theorem getD_recordOf (row : Row) {i : Nat} (hi : i < d.columns.length) :
    (recordOf d row).getD i "" =
      cellText (hasText d d.columns[i]) (valueAt row d.columns[i]) := by
  have hlen : i < (recordOf d row).length := by rwa [recordOf, List.length_map]
  rw [List.getD_eq_getElem _ _ hlen]
  exact List.getElem_map ..

/-- The kinds of columns are found again: those that are marked, and those whose cells are all
numbers. -/
theorem kinds_read_back :
    (d.columns.map fun c => (c, hasText d c)).zipIdx.map (fun ((column, marked), i) =>
      (column, !marked && (d.rows.map (recordOf d)).all fun cells => isNumeric (cells.getD i ""))) =
        d.columns.map fun c => (c, !hasText d c) := by
  apply List.ext_getElem
  · simp
  · intro i hi hi'
    have hi : i < d.columns.length := by rwa [List.length_map] at hi'
    simp only [List.getElem_map, List.getElem_zipIdx, Nat.zero_add, Prod.mk.injEq, true_and]
    cases htext : hasText d d.columns[i] with
    | true => rfl
    | false =>
      -- A column without a mark is one of numbers if all its cells are read as such.
      rw [Bool.not_false, Bool.true_and, List.all_map, List.all_eq_true]
      intro row hrow
      have hcell := (cell_reads_back h hread hrow (List.getElem_mem hi)).2 htext
      rw [Function.comp_apply, getD_recordOf row hi]
      exact hcell

theorem cells_read_back {row : Row} (hrow : row ∈ d.rows) :
    (d.columns.map fun c => (c, !hasText d c)).zipIdx.map (fun ((column, numeric), i) =>
      (column, cellValue numeric ((recordOf d row).getD i ""))) =
        d.columns.map fun c => (c, valueAt row c) := by
  apply List.ext_getElem
  · simp
  · intro i hi hi'
    have hi : i < d.columns.length := by rwa [List.length_map] at hi'
    simp only [List.getElem_map, List.getElem_zipIdx, Nat.zero_add, getD_recordOf row hi,
      (cell_reads_back h hread hrow (List.getElem_mem hi)).1]

/-- The records of a data set make up the data set with its cells in the order of its columns. -/
theorem ofRecords_recordOf (name : String) :
    ofRecords name (headerOf d) (d.rows.map (recordOf d)) =
      { name, columns := d.columns
        rows := d.rows.map fun row => d.columns.map fun c => (c, valueAt row c) } := by
  have hfirst : (d.columns.map fun c => (c, hasText d c)).map (·.1) = d.columns := by
    rw [List.map_map]
    exact List.map_id _
  have hdistinct : (Dataset.mk name d.columns []).DistinctColumns := h.distinct
  unfold ofRecords
  dsimp only
  rw [map_headerColumn h, kinds_read_back h hread, hfirst,
    Dataset.withColumns_eq name h.distinct, List.map_map]
  dsimp only
  congr 1
  apply List.map_congr_left
  intro row hrow
  rw [Function.comp_apply, cells_read_back h hread hrow, Dataset.addCells_eq hdistinct]
  · rfl
  · simp only [List.forall_mem_map]
    exact fun c hc => hc
  · rw [List.nil_append, Row.IsMap, List.map_map]
    exact (List.map_id d.columns).symm ▸ h.distinct.nodup

end

theorem read_toCsv {d : Dataset} (h : Tabular d) :
    Csv.read (toCsv d).toUTF8.toList = .ok (headerOf d, d.rows.map (recordOf d)) := by
  rw [Text.toList_toUTF8, toCsv_eq]
  apply Csv.read_write
  · rw [headerOf, ne_eq, List.map_eq_nil_iff]
    exact h.columns
  · simp only [List.forall_mem_map, recordOf, headerOf, List.length_map, implies_true]
  · intro s hs b hb
    obtain ⟨name, hname, rfl⟩ := List.mem_map.mp (List.mem_of_mem_head? hs)
    obtain ⟨c, cs, hlist, -⟩ := h.names name hname
    have hbounds := bounds_of_isNameChar ((h.names name hname).isNameChar c
      (by rw [hlist]; exact List.mem_cons_self))
    obtain ⟨tail, htail⟩ : ∃ tail, (if hasText d name then name ++ "$" else name).toList =
        c :: tail := by
      split
      · exact ⟨cs ++ ['$'], by rw [String.toList_append, hlist]; rfl⟩
      · exact ⟨cs, hlist⟩
    have hchar : String.utf8EncodeChar c = [UInt8.ofNat c.toNat] :=
      if_pos (show c.toNat ≤ 0x7f by omega)
    rw [textBytes, htail, List.flatMap_cons, hchar] at hb
    cases hb
    rintro heq
    have hnat := congrArg UInt8.toNat heq
    rw [Text.toNat_ofNat_of_lt (by omega)] at hnat
    exact absurd hnat (by
      have : (0xEF : UInt8).toNat = 0xEF := rfl
      omega)

theorem Tabular.perm_row {d : Dataset} (h : Tabular d) {row : Row} (hrow : row ∈ d.rows) :
    row.Perm (d.columns.map fun c => (c, valueAt row c)) := by
  have hperm := (h.cells row hrow).map fun c => (c, valueAt row c)
  rwa [show (row.map (·.1)).map (fun c => (c, valueAt row c)) = row from (h.isMap hrow).map_cell?]
    at hperm

/-- A file of comma-separated values holds the data set that was written to it: the data set that is
loaded has its columns in their order, and in every row the same cells, with the missing number for
the missing number and every text as it is. -/
theorem load_save_csv {d : Dataset} {files : FileTree} {path : String} (h : Tabular d)
    (hread : ∀ row ∈ d.rows, ∀ cell ∈ row, TextReadsBack cell.2) (hname : d.name = fileStem path)
    (hw : files.Writable path) :
    ∃ files', Engine.csv.save files path d = .ok files' ∧
      ∃ loaded, Engine.csv.load files' path = .ok loaded ∧ d.Reordered loaded := by
  obtain ⟨files', hsave, hload⟩ := Engine.load_of_save hw .csv d
  refine ⟨files', hsave, ofRecords (fileStem path) (headerOf d) (d.rows.map (recordOf d)), ?_, ?_⟩
  · rw [hload]
    change ofCsv (fileStem path) (toCsv d).toUTF8.toList = _
    rw [ofCsv, read_toCsv h]
  · rw [ofRecords_recordOf h hread]
    constructor
    · exact hname.symm
    · rfl
    · rw [List.forall₂_map_right_iff, List.forall₂_same]
      exact fun row hrow => h.perm_row hrow

/-- Texts that look like something else, an infinite number and a missing one. -/
def oddTexts : Dataset where
  name := "v"
  columns := ["id", "cost"]
  rows := [[("cost", .number 2.5), ("id", .text "1.5")], [("id", .text ""), ("cost", .missing)],
    [("id", .text "a, \"b\"\n"), ("cost", .number (1.0 / 0.0))], [("id", .text "."),
      ("cost", .number (-0.0))]]

theorem load_save_csv_odd : ∃ files', Engine.csv.save {} "v" oddTexts = .ok files' ∧
    ∃ loaded, Engine.csv.load files' "v" = .ok loaded ∧ oddTexts.Reordered loaded := by
  have hreads : Number.read? (Number.toText 2.5) = some 2.5 := by decide +kernel
  have hzero : Number.read? (Number.toText (-0.0)) = some (-0.0) := by decide +kernel
  have htabular : Tabular oddTexts := by
    constructor
    · exact List.cons_ne_nil _ _
    · simp only [oddTexts, List.forall_mem_cons, List.not_mem_nil, false_imp_iff, implies_true,
        and_true]
      constructor
      · exact ⟨'i', ['d'], by simp, by decide, by decide⟩
      · exact ⟨'c', ['o', 's', 't'], by simp, by decide, by decide⟩
    · decide +kernel
    · decide +kernel
    · simp only [oddTexts, List.forall_mem_cons, List.not_mem_nil, false_imp_iff, implies_true,
        and_true]
      constructor
      · refine ⟨.character, ?_⟩
        simp [Value.kind]
      · refine ⟨.numeric, ?_⟩
        simp [Value.kind, Value.missing]
  have hread : ∀ row ∈ oddTexts.rows, ∀ cell ∈ row, TextReadsBack cell.2 := by
    simp only [oddTexts, List.forall_mem_cons, List.not_mem_nil, false_imp_iff, implies_true,
      and_true]
    refine ⟨⟨?_, ?_⟩, ⟨?_, ?_⟩, ⟨?_, ?_⟩, ?_, ?_⟩
    · rintro _ ⟨⟩ _
      exact hreads
    · rintro _ ⟨⟩
    · rintro _ ⟨⟩
    · rintro _ ⟨⟩ hfinite
      exact absurd hfinite (by decide +kernel)
    · rintro _ ⟨⟩
    · rintro _ ⟨⟩ hfinite
      exact absurd hfinite (by decide +kernel)
    · rintro _ ⟨⟩
    · rintro _ ⟨⟩ _
      exact hzero
  have hpath : FileTree.components "v" = ["v"] := FileTree.components_ofList_singleton (by decide)
  have hname : fileStem "v" = "v" := by
    rw [fileStem, hpath]
    decide +kernel
  have hplace : ({} : FileTree).resolve "v" = .ok ["v"] := by
    rw [FileTree.resolve, hpath]
    rfl
  exact load_save_csv htabular hread hname.symm
    ⟨["v"], hplace, by simp [FileTree.node?], by decide +kernel⟩

end Storage

end StepLang
