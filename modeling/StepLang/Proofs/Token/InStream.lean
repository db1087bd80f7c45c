import StepLang.Proofs.DataStep.DataLines
import StepLang.Proofs.Parser.InStream

/-! # Scanning a step that holds its own data

The text of a DATA step with an INPUT statement and data lines is cut into the tokens of that step,
whatever the data lines hold.
-/

namespace StepLang.Token

/-- From any place, the text is cut into tokens of the given kinds. -/
def ScansTo (atStart dataFollow : Bool) (cs : List Char) (kinds : List Kind) : Prop :=
  ∀ pos, ∃ tokens, scanFrom atStart dataFollow pos cs = .ok tokens ∧ tokens.map (·.kind) = kinds

theorem piece_of_isNameStart {atStart : Bool} {c : Char} {cs : List Char}
    (hc : Text.isNameStart c = true) :
    piece atStart c cs = .ok (.token (word c cs).1, (word c cs).2) := by
  unfold piece
  dsimp only
  split
  case h_30 =>
    rw [Text.isDigit_of_isNameStart hc, hc]
    rfl
  all_goals cases hc

theorem nameLength_append {w rest : List Char} (hw : w.all Text.isNameChar = true)
    (hr : nameLength rest = 0) : nameLength (w ++ rest) = w.length := by
  rw [nameLength] at hr ⊢
  rw [List.takeWhile_append_of_pos (List.all_eq_true.mp hw), List.length_append, hr, Nat.add_zero]

/-- A name or a keyword but `ELSE` is cut where a character does not go on with it. -/
theorem piece_word {atStart : Bool} {c : Char} {w rest : List Char} {kind : Kind}
    (hc : Text.isNameStart c = true) (hw : w.all Text.isNameChar = true)
    (hr : nameLength rest = 0)
    (hk : kind = (Kind.ofWord? (String.ofList (c :: w))).getD (.name (String.ofList (c :: w))))
    (helse : kind ≠ .keyword .ELSE) :
    piece atStart c (w ++ rest) = .ok (.token kind, w.length) := by
  have hlength := nameLength_append hw hr
  have hword : word c (w ++ rest) = (kind, w.length) := by
    unfold word
    dsimp only
    rw [hlength, List.take_left]
    cases hw : Kind.ofWord? (String.ofList (c :: w)) with
    | none =>
      rw [hw, Option.getD_none] at hk
      rw [hk]
    | some k =>
      rw [hw, Option.getD_some] at hk
      subst hk
      split
      · rename_i heq
        exact absurd (Option.some.inj heq) helse
      · rename_i heq
        rw [Option.some.inj heq]
      · rename_i heq
        cases heq
  rw [piece_of_isNameStart hc, hword]

namespace ScansTo

variable {atStart dataFollow : Bool} {c : Char} {cs rest : List Char} {kind : Kind}
  {kinds : List Kind} {n : Nat}

theorem nil : ScansTo atStart dataFollow [] [.endOfInput] := by
  intro pos
  exact ⟨_, by rw [scanFrom], rfl⟩

theorem gap (hp : piece atStart c cs = .ok (.gap, n))
    (h : ScansTo atStart dataFollow (cs.drop n) kinds) :
    ScansTo atStart dataFollow (c :: cs) kinds := by
  intro pos
  obtain ⟨tokens, hscan, hkinds⟩ := h (pos.after (c :: cs.take n))
  refine ⟨tokens, ?_, hkinds⟩
  rw [scanFrom, hp]
  exact hscan

theorem token (hp : piece atStart c cs = .ok (.token kind, n))
    (hd : kind = .symbol .semicolon → dataFollow = false)
    (h : ScansTo (kind == .symbol .semicolon)
      (dataFollow || (kind == .keyword .DATALINES && atStart && semicolonFollows (cs.drop n)))
      (cs.drop n) kinds) :
    ScansTo atStart dataFollow (c :: cs) (kind :: kinds) := by
  intro pos
  obtain ⟨tokens, hscan, hkinds⟩ := h (pos.after (c :: cs.take n))
  refine ⟨⟨kind, lexemeOf kind (c :: cs.take n), pos⟩ :: tokens, ?_, congrArg (kind :: ·) hkinds⟩
  rw [scanFrom, hp]
  dsimp only
  rw [if_neg (by simpa using hd), hscan]
  rfl

/-- Behind the semicolon that data follow, the data are cut out from the next line on. -/
theorem data {lines body : List Char} (hblock : dataBlock lines = ⟨body, true, n⟩)
    (h : ScansTo true false (lines.drop n) kinds) :
    ScansTo atStart true (';' :: '\n' :: lines)
      (.symbol .semicolon :: .dataLines (String.ofList body) :: .symbol .semicolon :: kinds) := by
  intro pos
  have hp : piece atStart ';' ('\n' :: lines) = .ok (.token (.symbol .semicolon), 0) := rfl
  have hskip : ('\n' :: lines).drop (lineLength ('\n' :: lines)) = lines := rfl
  rw [scanFrom, hp]
  dsimp only
  rw [if_pos ⟨rfl, rfl⟩, List.drop_zero, hskip, hblock]
  dsimp only
  obtain ⟨tokens, hscan, hkinds⟩ := h _
  refine ⟨_, by rw [hscan]; rfl, ?_⟩
  simp [hkinds]

theorem semicolon (h : ScansTo true false cs kinds) :
    ScansTo atStart false (';' :: cs) (.symbol .semicolon :: kinds) :=
  token rfl (fun _ => rfl) h

theorem blank (h : ScansTo atStart dataFollow cs kinds) :
    ScansTo atStart dataFollow (' ' :: cs) kinds :=
  gap rfl h

/-- A name or a keyword but `ELSE`, up to a character that does not go on with it. -/
theorem word {w : List Char} (hc : Text.isNameStart c = true)
    (hw : w.all Text.isNameChar = true) (hr : nameLength rest = 0)
    (hk : kind = (Kind.ofWord? (String.ofList (c :: w))).getD (.name (String.ofList (c :: w))))
    (helse : kind ≠ .keyword .ELSE) (hsemi : kind ≠ .symbol .semicolon)
    (h : ScansTo false (dataFollow || (kind == .keyword .DATALINES && atStart &&
      semicolonFollows rest)) rest kinds) :
    ScansTo atStart dataFollow (c :: w ++ rest) (kind :: kinds) := by
  rw [List.cons_append]
  refine token (piece_word hc hw hr hk helse) (fun h => absurd h hsemi) ?_
  rwa [List.drop_left, beq_eq_false_iff_ne.mpr hsemi]

theorem keyword {w : List Char} {k : Keyword} (hc : Text.isNameStart c = true)
    (hw : w.all Text.isNameChar = true) (hr : nameLength rest = 0)
    (hk : Kind.ofWord? (String.ofList (c :: w)) = some (.keyword k)) (helse : k ≠ .ELSE)
    (h : ScansTo false (dataFollow || (k == .DATALINES && atStart && semicolonFollows rest))
      rest kinds) :
    ScansTo atStart dataFollow (c :: w ++ rest) (.keyword k :: kinds) := by
  refine word hc hw hr (by rw [hk]; rfl) (by simpa using helse) (by simp) ?_
  have hkind : (Kind.keyword k == .keyword .DATALINES) = (k == .DATALINES) := by
    cases k <;> rfl
  rwa [hkind]

end ScansTo

/-- A name that starts and goes on as names do and is not a reserved word. -/
structure IsPlainName (name : String) : Prop where
  letters : ∃ c w, name.toList = c :: w ∧ Text.isNameStart c = true ∧
    w.all Text.isNameChar = true
  unreserved : Kind.ofWord? name = none

theorem ScansTo.name {name : String} {rest : List Char} {kinds : List Kind}
    (hn : IsPlainName name) (hr : nameLength rest = 0)
    (h : ScansTo false false rest kinds) :
    ScansTo false false (name.toList ++ rest) (.name name :: kinds) := by
  obtain ⟨c, w, hname, hc, hw⟩ := hn.letters
  have htext : String.ofList (c :: w) = name := by rw [← hname, String.ofList_toList]
  rw [hname]
  refine .word hc hw hr ?_ (by simp) (by simp) (by simpa using h)
  rw [htext, hn.unreserved, Option.getD_none]

/-- The text of a field of an INPUT statement, with a blank before it. -/
def fieldText (f : InputField) : String :=
  match f.kind with
  | .numeric => " " ++ f.name
  | .character => " " ++ f.name ++ " $"

theorem toList_fieldText_numeric (name : String) :
    (fieldText ⟨name, .numeric⟩).toList = ' ' :: name.toList := String.toList_append

theorem toList_fieldText_character (name : String) :
    (fieldText ⟨name, .character⟩).toList = ' ' :: (name.toList ++ [' ', '$']) := by
  change (" " ++ name ++ " $").toList = _
  rw [String.toList_append, String.toList_append]
  rfl

theorem nameLength_fields (fields : List InputField) (rest : List Char) :
    nameLength (fields.flatMap (fun f => (fieldText f).toList) ++ ';' :: rest) = 0 := by
  cases fields with
  | nil => rfl
  | cons f fields =>
    obtain ⟨name, kind⟩ := f
    cases kind with
    | numeric =>
      rw [List.flatMap_cons, toList_fieldText_numeric]
      rfl
    | character =>
      rw [List.flatMap_cons, toList_fieldText_character]
      rfl

theorem ScansTo.fields {fields : List InputField} {rest : List Char} {kinds : List Kind}
    (hn : ∀ f ∈ fields, IsPlainName f.name) (h : ScansTo false false (';' :: rest) kinds) :
    ScansTo false false (fields.flatMap (fun f => (fieldText f).toList) ++ ';' :: rest)
      (Parser.fieldKinds fields ++ kinds) := by
  induction fields with
  | nil => exact h
  | cons f fields ih =>
    rw [List.forall_mem_cons] at hn
    have hrest := ih hn.2
    have hhead := nameLength_fields fields rest
    obtain ⟨name, kind⟩ := f
    cases kind with
    | numeric =>
      rw [List.flatMap_cons, List.append_assoc, toList_fieldText_numeric]
      exact .blank (.name hn.1 hhead hrest)
    | character =>
      rw [List.flatMap_cons, List.append_assoc, toList_fieldText_character, List.cons_append,
        List.append_assoc]
      refine .blank (.name hn.1 rfl (.blank (.token rfl ?_ hrest)))
      intro hk
      cases hk

/-- The text of a DATA step that reads fields from the lines that stand in it. -/
def inStreamText (fields : List InputField) (lines : List String) : String :=
  "data a; input" ++ String.join (fields.map fieldText) ++ "; datalines;\n" ++
    String.join (lines.map (· ++ "\n")) ++ ";\nrun;"

theorem toList_inStreamText (fields : List InputField) (lines : List String) :
    (inStreamText fields lines).toList =
      'd' :: ['a', 't', 'a'] ++ ' ' :: ("a".toList ++ ';' :: ' ' :: ('i' :: ['n', 'p', 'u', 't'] ++
        (fields.flatMap (fun f => (fieldText f).toList) ++ ';' :: ' ' ::
          ('d' :: ['a', 't', 'a', 'l', 'i', 'n', 'e', 's'] ++ ';' :: '\n' ::
            (lineText (lines.map String.toList) ++ ';' :: '\n' ::
              ('r' :: ['u', 'n'] ++ [';'])))))) := by
  delta inStreamText
  simp only [lineText, String.toList_append, String.toList_join, List.flatMap_map,
    List.append_assoc]
  rfl

theorem inStreamStep_append (output : String) (fields : List InputField) (body : String)
    (kinds : List Kind) : Parser.inStreamStep output fields body ++ kinds =
      .keyword .DATA :: .name output :: .symbol .semicolon :: .keyword .INPUT ::
        (Parser.fieldKinds fields ++ .symbol .semicolon :: .keyword .DATALINES ::
          .symbol .semicolon :: .dataLines body :: .symbol .semicolon ::
            .keyword .RUN :: .symbol .semicolon :: kinds) := by
  simp only [Parser.inStreamStep, Parser.inStreamKinds, List.cons_append, List.append_assoc,
    List.nil_append]

theorem scan_inStream {fields : List InputField} {table : List (List String)} {lines : List String}
    (hn : ∀ f ∈ fields, IsPlainName f.name) (h : List.Forall₂ IsDataLine table lines) :
    ∃ tokens, scan (inStreamText fields lines) = .ok tokens ∧
      tokens.map (·.kind) = Parser.inStreamStep "a" fields
        (String.ofList ((lines.map String.toList).flatMap dataLine)) ++ [.endOfInput] := by
  let body := String.ofList ((lines.map String.toList).flatMap dataLine)
  have hlines : ∀ line ∈ lines.map String.toList, '\n' ∉ line ∧ endsData line = false := by
    rw [List.forall_mem_map]
    intro line hline
    obtain ⟨words, hdata⟩ := exists_isDataLine h line hline
    exact ⟨Text.newline_not_mem_of_spaced hdata.spaced, not_endsData hdata⟩
  have hblock := dataBlock_lines hlines ('r' :: ['u', 'n'] ++ [';'])
  have hdrop :
      (lineText (lines.map String.toList) ++ ';' :: '\n' :: ('r' :: ['u', 'n'] ++ [';'])).drop
        ((lineText (lines.map String.toList)).length + 2) = 'r' :: ['u', 'n'] ++ [';'] := by
    rw [← List.drop_drop, List.drop_left]
    rfl
  suffices hscan : ScansTo true false (inStreamText fields lines).toList
      (Parser.inStreamStep "a" fields body ++ [.endOfInput]) from hscan .start
  have hrun : ScansTo true false ('r' :: ['u', 'n'] ++ [';'])
      [.keyword .RUN, .symbol .semicolon, .endOfInput] :=
    .keyword rfl rfl rfl (by decide +kernel) (by decide) (.semicolon .nil)
  have hname : IsPlainName "a" := ⟨⟨'a', [], rfl, rfl, rfl⟩, by decide +kernel⟩
  have hinput : (Keyword.INPUT == .DATALINES) = false := rfl
  rw [toList_inStreamText, inStreamStep_append]
  refine .keyword rfl rfl rfl (by decide +kernel) (by decide) (.blank (.name hname rfl ?_))
  refine .semicolon (.blank (.keyword rfl rfl (nameLength_fields _ _) (by decide +kernel)
    (by decide) ?_))
  rw [Bool.false_or, hinput, Bool.false_and, Bool.false_and]
  refine .fields hn (.semicolon (.blank ?_))
  refine .keyword rfl rfl rfl (by decide +kernel) (by decide) (.data hblock ?_)
  rwa [hdrop]

end StepLang.Token
