import Mathlib.Data.List.Basic
import Mathlib.Data.List.Induction
import Mathlib.Data.List.TakeWhile
import StepLang.Proofs.Text.Letters
import StepLang.Token.Scanner

/-! # Text between tokens

Between two tokens stand blanks and comments, and behind the semicolon of a DATALINES statement the
rest of its line and the lines of data. These are described here by what they look like; what the
scanner passes over is of that form, and the text of a token is its lexeme. Places are counted from
the text before them.
-/

namespace StepLang

/-! ### Places -/

namespace Position

/-- The place behind a text: one line for each newline, and one column for each character behind
the last newline. -/
def behind (text : List Char) : Position :=
  ⟨1 + text.count '\n', 1 + (text.reverse.takeWhile (· != '\n')).length⟩

theorem after_append (p : Position) (a b : List Char) : p.after (a ++ b) = (p.after a).after b :=
  List.foldl_append

theorem after_behind (done text : List Char) :
    (behind done).after text = behind (done ++ text) := by
  induction text using List.reverseRecOn with
  | nil => simp [after]
  | append_singleton text c ih =>
    rw [after_append, ih, ← List.append_assoc]
    by_cases hc : c = '\n'
    · simp [after, next, behind, hc]
      omega
    · simp [after, next, behind, hc]
      omega

end Position

namespace Token

/-! ### Blanks and comments -/

/-- A text begins with blanks and comments, and the second text stands behind them. A block comment
ends at its first closing mark. Where a statement would begin a star starts a comment, which ends
behind its first semicolon or in front of the end of its line. -/
inductive Gap (atStart : Bool) : List Char → List Char → Prop
  | none (rest : List Char) : Gap atStart rest rest
  | blank {c : Char} {cs rest : List Char} (hc : isGapChar c = true) (h : Gap atStart cs rest) :
    Gap atStart (c :: cs) rest
  | block {inner cs rest : List Char} (hi : ¬ ['*', '/'] <:+: inner ++ ['*'])
    (h : Gap atStart cs rest) : Gap atStart ('/' :: '*' :: (inner ++ '*' :: '/' :: cs)) rest
  | statement {inner cs rest : List Char} (hs : atStart = true)
    (hi : ∀ c ∈ inner, c ≠ '\n' ∧ c ≠ ';') (h : Gap atStart cs rest) :
    Gap atStart ('*' :: (inner ++ ';' :: cs)) rest
  | line {inner cs rest : List Char} (hs : atStart = true) (hi : ∀ c ∈ inner, c ≠ '\n' ∧ c ≠ ';')
    (hcs : ∀ c ∈ cs.head?, c = '\n') (h : Gap atStart cs rest) :
    Gap atStart ('*' :: (inner ++ cs)) rest

theorem commentLength_cases (cs : List Char) : ∃ inner, (∀ c ∈ inner, c ≠ '\n' ∧ c ≠ ';') ∧
    (cs = inner ++ ';' :: cs.drop (commentLength cs) ∨
      cs = inner ++ cs.drop (commentLength cs) ∧
        ∀ c ∈ (cs.drop (commentLength cs)).head?, c = '\n') := by
  induction cs with
  | nil => exact ⟨[], by simp, .inr ⟨rfl, by simp⟩⟩
  | cons c cs ih =>
    unfold commentLength
    split
    · rename_i hc
      exact ⟨[], by simp, .inr ⟨rfl, by simp [hc]⟩⟩
    · rename_i hline
      split
      · rename_i hc
        exact ⟨[], by simp, .inl (by simp [hc])⟩
      · rename_i hc
        obtain ⟨inner, hinner, hcases⟩ := ih
        refine ⟨c :: inner, List.forall_mem_cons.mpr ⟨⟨hline, hc⟩, hinner⟩, ?_⟩
        rw [Nat.add_comm 1, List.drop_succ_cons]
        rcases hcases with h | ⟨h, hhead⟩
        · exact .inl (congrArg (c :: ·) h)
        · exact .inr ⟨congrArg (c :: ·) h, hhead⟩

/-- A block comment behind its opening mark is cut at the first closing mark. -/
theorem blockLength?_eq_some {cs : List Char} {n : Nat} (h : blockLength? cs = some n) :
    ∃ inner, ¬ ['*', '/'] <:+: inner ++ ['*'] ∧ cs = inner ++ '*' :: '/' :: cs.drop n := by
  fun_induction blockLength? cs generalizing n with
  | case1 cs =>
    cases h
    exact ⟨[], by decide, rfl⟩
  | case2 c cs hclose ih =>
    obtain ⟨k, hk, rfl⟩ := Option.map_eq_some_iff.mp h
    obtain ⟨inner, hinner, hcs⟩ := ih hk
    refine ⟨c :: inner, ?_, congrArg (c :: ·) hcs⟩
    rw [List.cons_append, List.infix_cons_iff]
    rintro (hhead | hinfix)
    · -- a closing mark at the head would have ended the comment there
      rw [List.cons_prefix_cons] at hhead
      obtain ⟨rfl, hhead⟩ := hhead
      cases inner with
      | nil => simp at hhead
      | cons d inner =>
        rw [List.cons_append, List.cons_prefix_cons] at hhead
        obtain ⟨rfl, -⟩ := hhead
        exact hclose (inner ++ '*' :: '/' :: cs.drop k) rfl hcs
    · exact hinner hinfix
  | case3 => cases h

theorem gap_of_piece {atStart : Bool} {c : Char} {cs : List Char} {n : Nat}
    (h : piece atStart c cs = .ok (.gap, n)) {rest : List Char}
    (hrest : Gap atStart (cs.drop n) rest) :
    Gap atStart (c :: cs) rest := by
  unfold piece at h
  dsimp only at h
  split at h
  case h_1 | h_2 | h_3 | h_4 =>
    cases h
    exact .blank (by decide) hrest
  all_goals (repeat' split at h) <;> cases h
  · rename_i hstart
    obtain ⟨inner, hinner, hcases⟩ := commentLength_cases cs
    rcases hcases with hcs | ⟨hcs, hhead⟩
    · rw [hcs]
      exact .statement hstart hinner hrest
    · rw [hcs]
      exact .line hstart hinner hhead hrest
  · rename_i hblock
    obtain ⟨inner, hinner, hcs⟩ := blockLength?_eq_some hblock
    rw [hcs]
    exact .block hinner hrest

/-! ### Spelling -/

/-- The text that a token is read from: its lexeme, or for `ELSE IF` the two words in any case of
letters with blanks between them. -/
inductive Spells (kind : Kind) (lexeme : String) : List Char → Prop
  | word (hk : kind ≠ .keyword .ELSEIF) : Spells kind lexeme lexeme.toList
  | pair {first gap second : List Char} (hk : kind = .keyword .ELSEIF) (hl : lexeme = "ELSE IF")
    (hfirst : Text.upper (String.ofList first) = "ELSE") (hgap : gap ≠ [])
    (hblank : ∀ c ∈ gap, isGapChar c = true) (hsecond : Text.upper (String.ofList second) = "IF") :
    Spells kind lexeme (first ++ gap ++ second)

/-- The kind is one of a token that is cut from the text. -/
def Kind.isCut : Kind → Bool
  | .dataLines _ | .endOfInput => false
  | _ => true

structure Spelled (kind : Kind) (text : List Char) : Prop where
  cut : kind.isCut = true
  pair : kind = .keyword .ELSEIF → Spells kind "ELSE IF" text

namespace Spelled

theorem spells {kind : Kind} {text : List Char} (h : Spelled kind text) :
    Spells kind (lexemeOf kind text) text := by
  unfold lexemeOf
  split
  · exact h.pair rfl
  · rename_i hk
    have hword : Spells kind (String.ofList text) (String.ofList text).toList := .word hk
    rwa [String.toList_ofList] at hword

theorem of_ne {kind : Kind} {text : List Char} (hc : kind.isCut = true)
    (hk : kind ≠ .keyword .ELSEIF) : Spelled kind text :=
  ⟨hc, fun h => absurd h hk⟩

end Spelled

theorem mem_of_lookup {table : List (String × Kind)} {word : String} {kind : Kind}
    (h : table.lookup word = some kind) : (word, kind) ∈ table := by
  obtain ⟨before, after, rfl, -⟩ := List.lookup_eq_some_iff.mp h
  simp

theorem spelled_of_lookup {table : List (String × Kind)} {word : String} {kind : Kind}
    (ht : ∀ p ∈ table, p.2.isCut = true ∧ p.2 ≠ .keyword .ELSEIF)
    (h : table.lookup word = some kind) (text : List Char) : Spelled kind text := by
  obtain ⟨hc, hk⟩ := ht _ (mem_of_lookup h)
  exact .of_ne hc hk

theorem drop_length_takeWhile {α : Type} (p : α → Bool) (l : List α) :
    l.drop (l.takeWhile p).length = l.dropWhile p := by
  have hsplit := List.prefix_iff_eq_append.mp (List.takeWhile_prefix p (l := l))
  exact List.append_cancel_left (hsplit.trans List.takeWhile_append_dropWhile.symm)

theorem exists_of_followingIf? {cs : List Char} {k : Nat} (h : followingIf? cs = some k) :
    ∃ gap i f, cs = gap ++ [i, f] ++ cs.drop k ∧ k = gap.length + 2 ∧
      (∀ c ∈ gap, isGapChar c = true) ∧ i.toUpper = 'I' ∧ f.toUpper = 'F' ∧
      nameLength (cs.drop k) = 0 := by
  unfold followingIf? at h
  dsimp only at h
  split at h
  · rename_i i f rest hdrop
    split at h
    · rename_i hif
      obtain ⟨hi, hf, hrest⟩ := hif
      cases h
      have hbehind : cs.drop ((cs.takeWhile isGapChar).length + 2) = rest := by
        rw [← List.drop_drop, hdrop]
        rfl
      refine ⟨cs.takeWhile isGapChar, i, f, ?_, rfl, fun c hc => List.mem_takeWhile_imp hc, hi, hf,
        by rwa [hbehind]⟩
      rw [drop_length_takeWhile] at hdrop
      rw [hbehind, List.append_assoc, List.cons_append, List.cons_append, List.nil_append, ← hdrop,
        List.takeWhile_append_dropWhile]
    · cases h
  · cases h

theorem followingIf?_eq_some {cs : List Char} {k : Nat} (h : followingIf? cs = some k)
    (hcs : ∀ c ∈ cs.head?, Text.isNameChar c = false) :
    ∃ gap second, cs.take k = gap ++ second ∧ gap ≠ [] ∧ (∀ c ∈ gap, isGapChar c = true) ∧
      Text.upper (String.ofList second) = "IF" := by
  obtain ⟨gap, i, f, hsplit, hk, hgap, hi, hf, -⟩ := exists_of_followingIf? h
  refine ⟨gap, [i, f], ?_, ?_, hgap, by simp [Text.upper, ← String.toList_inj, hi, hf]⟩
  · have htake := List.prefix_iff_eq_take.mp ⟨cs.drop k, hsplit.symm⟩
    rw [List.length_append] at htake
    rw [hk]
    exact htake.symm
  · rintro rfl
    have hname := hcs i (by rw [hsplit]; rfl)
    rw [Text.toUpper_of_isNameChar hname] at hi
    rw [hi] at hname
    cases hname

theorem spelled_word (c : Char) (cs : List Char) :
    Spelled (word c cs).1 (c :: cs.take (word c cs).2) := by
  unfold word
  dsimp only
  split
  · rename_i hword
    have helse := mem_of_lookup hword
    have helse : Text.upper (String.ofList (c :: cs.take (nameLength cs))) = "ELSE" := by
      have hunique : ∀ p ∈ Kind.reserved, p.2 = .keyword .ELSE → p.1 = "ELSE" := by decide
      exact hunique _ helse rfl
    have hends : ∀ d ∈ (cs.drop (nameLength cs)).head?, Text.isNameChar d = false := by
      rw [nameLength, drop_length_takeWhile]
      intro d hd
      have := List.head?_dropWhile_not Text.isNameChar cs
      rwa [Option.mem_def.mp hd] at this
    split
    · rename_i k hif
      obtain ⟨gap, second, htake, hgap, hblank, hsecond⟩ := followingIf?_eq_some hif hends
      refine ⟨rfl, fun _ => ?_⟩
      rw [List.take_add, htake, ← List.append_assoc, ← List.cons_append, ← List.cons_append]
      exact .pair rfl rfl helse hgap hblank hsecond
    · exact .of_ne rfl (by simp)
  · rename_i hword
    exact spelled_of_lookup (by decide) hword _
  · exact .of_ne rfl (by simp)

@[simp] theorem spelled_symbol (s : Symbol) (text : List Char) : Spelled (.symbol s) text :=
  .of_ne rfl (by simp)

@[simp] theorem spelled_text (s : String) (text : List Char) : Spelled (.text s) text :=
  .of_ne rfl (by simp)

@[simp] theorem spelled_keyword {k : Keyword} (hk : k ≠ .ELSEIF) (text : List Char) :
    Spelled (.keyword k) text :=
  .of_ne rfl (by simpa using hk)

@[simp] theorem spelled_numeral (c : Char) (cs text : List Char) :
    Spelled (numeral c cs).1 text := by
  unfold numeral
  dsimp only
  split
  · exact .of_ne rfl (by simp)
  · split <;> exact .of_ne rfl (by simp)

@[simp] theorem spelled_macroReference (cs text : List Char) :
    Spelled (macroReference cs).1 text := by
  unfold macroReference
  dsimp only
  split <;> exact .of_ne rfl (by simp)

@[simp] theorem spelled_pair {second : Char} {long short : Kind} {text : List Char}
    (hl : Spelled long text) (hs : Spelled short text) (cs : List Char) :
    Spelled (pair second long short cs).1 text := by
  unfold pair
  split
  · split
    · exact hl
    · exact hs
  · exact hs

theorem spelled_of_piece {atStart : Bool} {c : Char} {cs : List Char} {kind : Kind} {n : Nat}
    (h : piece atStart c cs = .ok (.token kind, n)) : Spelled kind (c :: cs.take n) := by
  unfold piece at h
  dsimp only at h
  split at h
  all_goals (repeat' split at h) <;> cases h
  all_goals try simp [spelled_word]
  rename_i hword
  exact spelled_of_lookup (by decide) hword _

/-! ### Data lines -/

/-- The first line of a text, and what stands behind its end mark. -/
def IsLine (line cs rest : List Char) : Prop :=
  '\n' ∉ line ∧ (cs = line ++ '\n' :: rest ∨ cs = line ∧ rest = [])

/-- A line that ends the data: semicolons, and blanks around them. -/
def ClosesData (line : List Char) : Prop :=
  ∃ left n right, (∀ c ∈ left, Text.isBlank c = true) ∧ (∀ c ∈ right, Text.isBlank c = true) ∧
    line = left ++ List.replicate (n + 1) ';' ++ right

/-- A text begins with lines of data, and the second text stands behind them: behind the first line
that ends the data, or nowhere if there is no such line. -/
inductive DataLines : List Char → List Char → Prop
  | unclosed : DataLines [] []
  | close {line cs rest : List Char} (hl : IsLine line cs rest) (h : ClosesData line) :
    DataLines cs rest
  | line {line cs more rest : List Char} (hl : IsLine line cs more) (hc : ¬ ClosesData line)
    (h : DataLines more rest) : DataLines cs rest

theorem isLine_drop (cs : List Char) :
    IsLine (cs.takeWhile (· != '\n')) cs (cs.drop (lineLength cs)) := by
  induction cs with
  | nil => exact ⟨by simp, .inr ⟨rfl, rfl⟩⟩
  | cons c cs ih =>
    rw [lineLength]
    by_cases hc : c = '\n'
    · exact ⟨by simp [hc], .inl (by simp [hc])⟩
    · obtain ⟨hline, hcs⟩ := ih
      rw [if_neg hc, Nat.add_comm, List.drop_succ_cons, List.takeWhile_cons_of_pos (by simpa)]
      refine ⟨List.not_mem_cons_of_ne_of_not_mem (Ne.symm hc) hline, ?_⟩
      rcases hcs with hcs | ⟨hcs, hrest⟩
      · exact .inl (congrArg (c :: ·) hcs)
      · exact .inr ⟨congrArg (c :: ·) hcs, hrest⟩

theorem toList_trim (s : String) : (Text.trim s).toList =
    ((s.toList.dropWhile Text.isBlank).reverse.dropWhile Text.isBlank).reverse := by
  simp [Text.trim, Text.trimEnd, Text.trimStart]

/-- The two ends that trimming cuts off are blank. -/
theorem exists_trim (cs : List Char) : ∃ left right, (∀ c ∈ left, Text.isBlank c = true) ∧
    (∀ c ∈ right, Text.isBlank c = true) ∧
      cs = left ++ (Text.trim (String.ofList cs)).toList ++ right := by
  rw [toList_trim, String.toList_ofList]
  let middle := cs.dropWhile Text.isBlank
  refine ⟨cs.takeWhile Text.isBlank, (middle.reverse.takeWhile Text.isBlank).reverse, ?_, ?_, ?_⟩
  · exact fun c hc => List.mem_takeWhile_imp hc
  · exact fun c hc => List.mem_takeWhile_imp (List.mem_reverse.mp hc)
  · rw [List.append_assoc, ← List.reverse_append, List.takeWhile_append_dropWhile,
      List.reverse_reverse, List.takeWhile_append_dropWhile]

theorem dropWhile_append_of_head? {α : Type} {p : α → Bool} {a b : List α}
    (ha : ∀ x ∈ a, p x = true) (hb : ∀ x ∈ b.head?, p x = false) : (a ++ b).dropWhile p = b := by
  rw [List.dropWhile_append_of_pos ha]
  cases b with
  | nil => rfl
  | cons x b => exact List.dropWhile_cons_of_neg (by simp [hb x rfl])

/-- Blanks around a text that neither starts nor ends with one are cut off. -/
theorem toList_trim_append {left middle right : List Char}
    (hl : ∀ c ∈ left, Text.isBlank c = true) (hr : ∀ c ∈ right, Text.isBlank c = true)
    (hfirst : ∀ c ∈ middle.head?, Text.isBlank c = false)
    (hlast : ∀ c ∈ middle.getLast?, Text.isBlank c = false) (hm : middle ≠ []) :
    (Text.trim (String.ofList (left ++ middle ++ right))).toList = middle := by
  have hfirst : ∀ c ∈ (middle ++ right).head?, Text.isBlank c = false := by
    rwa [List.head?_append_of_ne_nil _ hm]
  rw [toList_trim, String.toList_ofList, List.append_assoc, dropWhile_append_of_head? hl hfirst,
    List.reverse_append, dropWhile_append_of_head? (by simpa using hr) (by simpa using hlast),
    List.reverse_reverse]

theorem endsData_iff {line : List Char} : endsData line = true ↔ ClosesData line := by
  unfold endsData
  dsimp only
  rw [Bool.and_eq_true, Bool.not_eq_true', List.isEmpty_eq_false_iff, List.all_eq_true]
  constructor
  · rintro ⟨hne, hall⟩
    obtain ⟨left, right, hleft, hright, hline⟩ := exists_trim line
    set s := (Text.trim (String.ofList line)).toList
    have hs : s = List.replicate s.length ';' := List.eq_replicate_of_mem (by simpa using hall)
    obtain ⟨n, hn⟩ := Nat.exists_eq_succ_of_ne_zero (mt List.length_eq_zero_iff.mp hne)
    exact ⟨left, n, right, hleft, hright, by rw [hline, hs, hn]⟩
  · rintro ⟨left, n, right, hleft, hright, rfl⟩
    have hfirst : ∀ c ∈ (List.replicate (n + 1) ';').head?, Text.isBlank c = false := by
      simp [List.head?_replicate]
      decide
    have hlast : ∀ c ∈ (List.replicate (n + 1) ';').getLast?, Text.isBlank c = false := by
      simp [List.getLast?_replicate]
      decide
    rw [toList_trim_append hleft hright hfirst hlast (by simp)]
    simp

theorem dataLines_dataBlock (cs : List Char) : DataLines cs (cs.drop (dataBlock cs).length) := by
  fun_induction dataBlock cs with
  | case1 => exact .unclosed
  | case2 c cs n line hends =>
    exact .close (isLine_drop (c :: cs)) (endsData_iff.mp hends)
  | case3 c cs n line hends more ih =>
    rw [← List.drop_drop]
    exact .line (isLine_drop (c :: cs)) (mt endsData_iff.mpr hends) ih

end Token

end StepLang
