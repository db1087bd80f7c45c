import Mathlib.Data.List.Forall2
import StepLang.DataStep.Input
import StepLang.Proofs.Token.Gaps

/-! # Lines of data

A line of data is words with blanks between them. Whatever the words are, the lines are cut from the
program as they stand, unless one of them is that which ends the data, and reading them gives a row
for each line with the words in their places.
-/

namespace StepLang

namespace Text

/-! ### Words of a line -/

/-- A blank inside a line. -/
def IsSpace (c : Char) : Prop := isBlank c = true ∧ c ≠ '\n'

/-- A text that is not empty and has no blanks. -/
def IsWord (w : String) : Prop := w.toList ≠ [] ∧ ∀ c ∈ w.toList, isBlank c = false

/-- A line with words: blanks stand between two of them, and may stand before the first and behind
the last. -/
inductive Spaced : List String → List Char → Prop
  | blank {gap : List Char} (hg : ∀ c ∈ gap, IsSpace c) : Spaced [] gap
  | word {gap rest : List Char} {w : String} {words : List String} (hg : ∀ c ∈ gap, IsSpace c)
    (hw : IsWord w) (hr : ∀ c ∈ rest.head?, IsSpace c) (h : Spaced words rest) :
    Spaced (w :: words) (gap ++ w.toList ++ rest)

theorem Spaced.cons_space {c : Char} {words : List String} {line : List Char} (hc : IsSpace c)
    (h : Spaced words line) : Spaced words (c :: line) := by
  cases h with
  | blank hg => exact .blank (List.forall_mem_cons.mpr ⟨hc, hg⟩)
  | word hg hw hr h => exact .word (List.forall_mem_cons.mpr ⟨hc, hg⟩) hw hr h

theorem spaced_intercalate {words : List String} (h : ∀ w ∈ words, IsWord w) :
    Spaced words (" ".intercalate words).toList := by
  rw [String.toList_intercalate]
  induction words with
  | nil => exact .blank (by simp)
  | cons w words ih =>
    rw [List.forall_mem_cons] at h
    have hrest := ih h.2
    have hnil : ∀ c ∈ ([] : List Char), IsSpace c := by simp
    cases words with
    | nil =>
      have hline := Spaced.word hnil h.1 (by simp) (.blank hnil)
      rw [List.nil_append, List.append_nil] at hline
      rwa [List.map_singleton, List.intercalate_singleton]
    | cons v words =>
      have hspace : IsSpace ' ' := ⟨rfl, by decide⟩
      have hhead : ∀ c ∈ (' ' :: " ".toList.intercalate ((v :: words).map String.toList)).head?,
          IsSpace c := by
        rintro c ⟨⟩
        exact hspace
      exact .word hnil h.1 hhead (hrest.cons_space hspace)

theorem newline_not_mem_of_spaced {words : List String} {line : List Char}
    (h : Spaced words line) : '\n' ∉ line := by
  induction h with
  | blank hg => exact fun hm => (hg _ hm).2 rfl
  | word hg hw _ _ ih =>
    intro hm
    rcases List.mem_append.mp hm with hm | hm
    · rcases List.mem_append.mp hm with hm | hm
      · exact (hg _ hm).2 rfl
      · cases hw.2 _ hm
    · exact ih hm

theorem exists_pieces (cs : List Char) : ∃ p ps, pieces cs = p :: ps := by
  cases cs with
  | nil => exact ⟨[], [], rfl⟩
  | cons c cs =>
    unfold pieces
    split
    · exact ⟨[], pieces cs, rfl⟩
    · split
      · exact ⟨[c], [], rfl⟩
      · rename_i p ps _
        exact ⟨c :: p, ps, rfl⟩

theorem pieces_cons_of_blank {c : Char} (hc : isBlank c = true) (cs : List Char) :
    pieces (c :: cs) = [] :: pieces cs := by
  rw [pieces, if_pos hc]

theorem pieces_append_word {w rest p : List Char} {ps : List (List Char)}
    (hw : ∀ c ∈ w, isBlank c = false) (hp : pieces rest = p :: ps) :
    pieces (w ++ rest) = (w ++ p) :: ps := by
  induction w with
  | nil => exact hp
  | cons c w ih =>
    rw [List.forall_mem_cons] at hw
    rw [List.cons_append, pieces, ih hw.2, hw.1]
    rfl

theorem pieces_concat_blank {b : Char} (hb : isBlank b = true) (cs : List Char) :
    pieces (cs ++ [b]) = pieces cs ++ [[]] := by
  induction cs with
  | nil => exact pieces_cons_of_blank hb []
  | cons c cs ih =>
    rw [List.cons_append]
    by_cases hc : isBlank c = true
    · rw [pieces_cons_of_blank hc, pieces_cons_of_blank hc, ih, List.cons_append]
    · obtain ⟨p, ps, hp⟩ := exists_pieces cs
      rw [pieces, pieces, if_neg hc, if_neg hc, ih, hp]
      rfl

theorem words_append_blanks {cs gap : List Char} (hg : ∀ c ∈ gap, isBlank c = true) :
    words (String.ofList (cs ++ gap)) = words (String.ofList cs) := by
  induction gap using List.reverseRecOn with
  | nil => rw [List.append_nil]
  | append_singleton gap b ih =>
    rw [List.forall_mem_append, List.forall_mem_singleton] at hg
    rw [← ih hg.1, ← List.append_assoc, words, words, String.toList_ofList, String.toList_ofList,
      pieces_concat_blank hg.2, List.filter_append]
    simp

/-- The words of a line are found whatever the blanks around them. -/
theorem words_of_spaced {ws : List String} {line : List Char} (h : Spaced ws line) :
    words (String.ofList line) = ws := by
  have hblanks (gap rest : List Char) (hg : ∀ c ∈ gap, IsSpace c) :
      words (String.ofList (gap ++ rest)) = words (String.ofList rest) := by
    induction gap with
    | nil => rfl
    | cons c gap ih =>
      rw [List.forall_mem_cons] at hg
      rw [← ih hg.2]
      simp [words, pieces_cons_of_blank hg.1.1]
  induction h with
  | @blank gap hg =>
    rw [← List.append_nil gap, hblanks gap [] hg]
    rfl
  | @word gap rest w ws hg hw hr _ ih =>
    rw [List.append_assoc, hblanks gap _ hg, ← ih]
    -- the word ends where the pieces of the rest begin with an empty one
    have hrest : ∃ ps, pieces rest = [] :: ps := by
      cases rest with
      | nil => exact ⟨[], rfl⟩
      | cons c rest => exact ⟨pieces rest, pieces_cons_of_blank (hr c rfl).1 rest⟩
    obtain ⟨ps, hps⟩ := hrest
    simp [words, pieces_append_word hw.2 hps, hps, hw.1]

end Text

open Text

namespace Token

/-! ### Cutting lines from a program -/

/-- A line of data: words with blanks between them, of which there is one at least. A single word is
not made of semicolons only. -/
structure IsDataLine (words : List String) (line : String) : Prop where
  spaced : Spaced words line.toList
  nonempty : words ≠ []
  kept : ∀ w, words = [w] → ∃ c ∈ w.toList, c ≠ ';'

theorem IsDataLine.of_words {words : List String} (h : ∀ w ∈ words, IsWord w) (hne : words ≠ [])
    (hkept : ∀ w, words = [w] → ∃ c ∈ w.toList, c ≠ ';') :
    IsDataLine words (" ".intercalate words) :=
  ⟨spaced_intercalate h, hne, hkept⟩

theorem not_endsData {words : List String} {line : String} (h : IsDataLine words line) :
    endsData line.toList = false := by
  rw [← Bool.not_eq_true, endsData_iff]
  rintro ⟨left, n, right, hleft, hright, hline⟩
  have hnewline := newline_not_mem_of_spaced h.spaced
  have hspace {gap : List Char} (hg : ∀ c ∈ gap, isBlank c = true) (hs : gap ⊆ line.toList) :
      ∀ c ∈ gap, IsSpace c := by
    intro c hc
    refine ⟨hg c hc, ?_⟩
    rintro rfl
    exact hnewline (hs hc)
  let w := String.ofList (List.replicate (n + 1) ';')
  have hw : IsWord w := by
    constructor
    · simp [w]
    · intro c hc
      simp only [w, String.toList_ofList, List.mem_replicate] at hc
      rw [hc.2]
      decide
  have hright := hspace hright (by rw [hline]; simp)
  have hsingle : Spaced [w] line.toList := by
    rw [hline, ← String.toList_ofList (l := List.replicate (n + 1) ';')]
    exact .word (hspace hleft (by rw [hline]; simp)) hw
      (fun c hc => hright c (List.mem_of_mem_head? hc)) (.blank hright)
  have hwords := (words_of_spaced h.spaced).symm.trans (words_of_spaced hsingle)
  obtain ⟨c, hc, hne⟩ := h.kept w hwords
  simp only [w, String.toList_ofList, List.mem_replicate] at hc
  exact hne hc.2

theorem exists_isDataLine {table : List (List String)} {lines : List String}
    (h : List.Forall₂ IsDataLine table lines) : ∀ line ∈ lines, ∃ words, IsDataLine words line := by
  induction h with
  | nil => simp
  | cons hline _ ih => exact List.forall_mem_cons.mpr ⟨⟨_, hline⟩, ih⟩

theorem lineLength_append {line : List Char} (hl : '\n' ∉ line) (rest : List Char) :
    lineLength (line ++ '\n' :: rest) = line.length + 1 := by
  induction line with
  | nil => rfl
  | cons c line ih =>
    rw [List.mem_cons, not_or] at hl
    rw [List.cons_append, lineLength, if_neg (Ne.symm hl.1), ih hl.2, List.length_cons]
    omega

theorem takeWhile_line {line : List Char} (hl : '\n' ∉ line) (rest : List Char) :
    (line ++ '\n' :: rest).takeWhile (· != '\n') = line := by
  rw [List.takeWhile_append_of_pos]
  · simp
  · intro c hc
    simp only [bne_iff_ne, ne_eq]
    rintro rfl
    exact hl hc

theorem dataBlock_line {line : List Char} (hl : '\n' ∉ line) (rest : List Char) :
    dataBlock (line ++ '\n' :: rest) =
      if endsData line then ⟨[], true, line.length + 1⟩
      else ⟨dataLine line ++ (dataBlock rest).body, (dataBlock rest).closed,
        line.length + 1 + (dataBlock rest).length⟩ := by
  have htake := takeWhile_line hl rest
  have hlength := lineLength_append hl rest
  have hdrop : (line ++ '\n' :: rest).drop (line.length + 1) = rest := by simp
  generalize line ++ '\n' :: rest = text at htake hlength hdrop
  fun_cases dataBlock text with
  | case1 => simp [lineLength] at hlength
  | case2 c cs n first hends =>
    change first = line at htake
    change n = line.length + 1 at hlength
    rw [htake] at hends
    rw [if_pos hends, hlength]
  | case3 c cs n first hends more =>
    have hmore : more = dataBlock rest := by rw [← hdrop, ← hlength]
    change first = line at htake
    change n = line.length + 1 at hlength
    rw [htake] at hends
    rw [if_neg hends, hmore, htake, hlength]

def lineText (lines : List (List Char)) : List Char :=
  lines.flatMap (· ++ ['\n'])

/-- Lines of data are cut out with the line that ends them. -/
theorem dataBlock_lines {lines : List (List Char)}
    (h : ∀ line ∈ lines, '\n' ∉ line ∧ endsData line = false) (rest : List Char) :
    dataBlock (lineText lines ++ ';' :: '\n' :: rest) =
      ⟨lines.flatMap dataLine, true, (lineText lines).length + 2⟩ := by
  induction lines with
  | nil =>
    have := @dataBlock_line [';'] (by decide) rest
    rwa [if_pos (by decide +kernel)] at this
  | cons line lines ih =>
    rw [List.forall_mem_cons] at h
    obtain ⟨⟨hline, hends⟩, h⟩ := h
    have htext : lineText (line :: lines) ++ ';' :: '\n' :: rest =
        line ++ '\n' :: (lineText lines ++ ';' :: '\n' :: rest) := by simp [lineText]
    rw [htext, dataBlock_line hline, if_neg (by simp [hends]), ih h]
    simp [lineText]
    omega

end Token

/-! ### Reading rows -/

namespace Text

theorem splitLines_line {line : List Char} (hl : '\n' ∉ line) (rest : List Char) :
    splitLines (line ++ '\n' :: rest) = line :: splitLines rest := by
  induction line with
  | nil => rfl
  | cons c line ih =>
    rw [List.mem_cons, not_or] at hl
    rw [List.cons_append, splitLines, if_neg (Ne.symm hl.1), ih hl.2]

theorem splitLines_lines {lines : List (List Char)} (h : ∀ line ∈ lines, '\n' ∉ line) :
    splitLines (lines.flatMap (· ++ ['\n'])) = lines ++ [[]] := by
  induction lines with
  | nil => rfl
  | cons line lines ih =>
    rw [List.forall_mem_cons] at h
    have htext : (line :: lines).flatMap (· ++ ['\n']) =
        line ++ '\n' :: lines.flatMap (· ++ ['\n']) := by simp
    rw [htext, splitLines_line h.1, ih h.2, List.cons_append]

theorem lines_lines {lines : List (List Char)} (h : ∀ line ∈ lines, '\n' ∉ line) :
    Text.lines (String.ofList (lines.flatMap (· ++ ['\n']))) =
      lines.map fun line => String.ofList (dropReturn line) := by
  simp [Text.lines, splitLines_lines h]

def dropReturns (line : List Char) : List Char :=
  (line.reverse.dropWhile (· == '\r')).reverse

theorem exists_dropReturns (line : List Char) :
    ∃ gap, line = dropReturns line ++ gap ∧ ∀ c ∈ gap, isBlank c = true := by
  refine ⟨(line.reverse.takeWhile (· == '\r')).reverse, ?_, ?_⟩
  · rw [dropReturns, ← List.reverse_append, List.takeWhile_append_dropWhile, List.reverse_reverse]
  · intro c hc
    have hreturn := List.mem_takeWhile_imp (List.mem_reverse.mp hc)
    rw [beq_iff_eq.mp hreturn]
    decide

theorem words_dropReturns (line : List Char) :
    words (String.ofList (dropReturns line)) = words (String.ofList line) := by
  obtain ⟨gap, hline, hgap⟩ := exists_dropReturns line
  conv_rhs => rw [hline, words_append_blanks hgap]

theorem words_dropReturn (line : List Char) :
    words (String.ofList (dropReturn line)) = words (String.ofList line) := by
  unfold dropReturn
  split
  · rename_i rest hrest
    have hline : line = rest.reverse ++ ['\r'] := by
      rw [← List.reverse_reverse line, hrest, List.reverse_cons]
    have hreturn : isBlank '\r' = true := by decide
    rw [hline, words_append_blanks (List.forall_mem_singleton.mpr hreturn)]
  · rfl

end Text

namespace DataStep

/-- The value that a field takes from its word: missing if there is none or it is a point. -/
def cellValue (field : InputField) : Option String → Value
  | none => .missingOf field.kind
  | some w =>
    if w = "." then .missingOf field.kind
    else
      match field.kind with
      | .character => .text w
      | .numeric => ((Number.read? w).map Value.number).getD .missing

def rowOf (fields : List InputField) (words : List String) : Row :=
  fields.mapIdx fun c field => (field.name, cellValue field words[c]?)

theorem fieldValue_eq (line : Nat) (field : InputField) (word : Option String) :
    (fieldValue line field word).1 = cellValue field word := by
  unfold fieldValue cellValue
  split
  · rfl
  · simp
  · rename_i w hne hkind
    have hdot : w ≠ "." := fun h => hne (by rw [h])
    simp [hdot, hkind]
  · rename_i w hne hkind
    have hdot : w ≠ "." := fun h => hne (by rw [h])
    cases hread : Number.read? w <;> simp [hdot, hkind, hread]

theorem readFields_eq (line : Nat) {fields : List InputField} (words : List String) (row : Row)
    (hf : (fields.map (·.name)).Nodup)
    (hr : ∀ cell ∈ row, ∀ field ∈ fields, cell.1 ≠ field.name) :
    (readFields line fields words row).1 = row ++ rowOf fields words := by
  induction fields generalizing words row with
  | nil => simp [readFields, rowOf]
  | cons field fields ih =>
    rw [List.map_cons, List.nodup_cons] at hf
    have hinsert := Row.insert_of_not_mem (fun cell hc => hr cell hc field List.mem_cons_self)
      (cellValue field words.head?)
    have hrest : (readFields line (field :: fields) words row).1 =
        (readFields line fields words.tail
          (Row.insert row field.name (cellValue field words.head?))).1 := by
      rw [← fieldValue_eq line]
      rfl
    rw [hrest, hinsert, ih words.tail _ hf.2]
    · simp [rowOf, List.mapIdx_cons, List.head?_eq_getElem?]
    · intro cell hc other ho
      rcases List.mem_append.mp hc with hc | hc
      · exact hr cell hc other (List.mem_cons_of_mem _ ho)
      · rw [List.mem_singleton.mp hc]
        intro hname
        exact hf.1 (List.mem_map.mpr ⟨other, ho, hname.symm⟩)

theorem readLines_rows {fields : List InputField} (hf : (fields.map (·.name)).Nodup)
    {table : List (List String)} {lines : List String}
    (h : List.Forall₂ (fun words line => Text.words line = words ∧ words ≠ []) table lines)
    (n : Nat) : (readLines fields (lines.zipIdx n)).1 = table.map (rowOf fields) := by
  induction h generalizing n with
  | nil => rfl
  | @cons words line table lines hline _ ih =>
    obtain ⟨rfl, hne⟩ := hline
    rw [List.zipIdx_cons, readLines, if_neg (by simpa using hne), List.map_cons, ← ih (n + 1)]
    have hrow := readFields_eq n (Text.words line) [] hf (by simp)
    rw [List.nil_append] at hrow
    rw [← hrow]

/-- Reading the lines that were cut from a program gives a row for each of them. -/
theorem readData_rows {fields : List InputField} (hf : (fields.map (·.name)).Nodup)
    {table : List (List String)} {lines : List String}
    (h : List.Forall₂ Token.IsDataLine table lines) :
    (readData fields (String.ofList ((lines.map String.toList).flatMap Token.dataLine))).1 =
      table.map (rowOf fields) := by
  have hbody : (lines.map String.toList).flatMap Token.dataLine =
      (lines.map fun line => dropReturns line.toList).flatMap (· ++ ['\n']) := by
    rw [List.flatMap_map, List.flatMap_map]
    rfl
  have hnewline : ∀ line ∈ lines.map fun line => dropReturns line.toList, '\n' ∉ line := by
    rw [List.forall_mem_map]
    intro line hline hm
    obtain ⟨words, hdata⟩ := Token.exists_isDataLine h line hline
    obtain ⟨gap, hsplit, -⟩ := exists_dropReturns line.toList
    apply newline_not_mem_of_spaced hdata.spaced
    rw [hsplit]
    exact List.mem_append_left _ hm
  rw [readData, hbody, lines_lines hnewline, List.map_map]
  apply readLines_rows hf
  rw [List.forall₂_map_right_iff]
  refine h.imp fun words line hline => ⟨?_, hline.nonempty⟩
  rw [Function.comp_apply, words_dropReturn, words_dropReturns]
  exact words_of_spaced hline.spaced

end DataStep

end StepLang
