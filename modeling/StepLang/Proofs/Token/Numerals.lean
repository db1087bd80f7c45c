import StepLang.Proofs.Storage.Csv
import StepLang.Proofs.Token.InStream

/-! # Numerals

A numeral is a number without a sign as it stands in a program: digits with at most one point among
them. The scanner and the reader of numbers give it the same value.
-/

namespace StepLang.Token

theorem piece_of_isDigit {atStart : Bool} {c : Char} {cs : List Char} (hc : c.isDigit = true) :
    piece atStart c cs = .ok (.token (numeral c cs).1, (numeral c cs).2) := by
  unfold piece
  dsimp only
  split
  case h_30 =>
    rw [hc]
    rfl
  all_goals cases hc

/-- Digits with at most one point and at least one digit. -/
structure Numeral where
  whole : List Char
  fraction : Option (List Char)
  isDigit : ∀ c ∈ whole ++ fraction.getD [], c.isDigit = true
  nonempty : whole ++ fraction.getD [] ≠ []

namespace Numeral

def chars (n : Numeral) : List Char :=
  n.whole ++ n.fraction.elim [] ('.' :: ·)

def text (n : Numeral) : String := String.ofList n.chars

def value (n : Numeral) : Float := Number.ofDigits n.whole (n.fraction.getD []) 0

variable (n : Numeral)

@[simp] theorem toList_text : n.text.toList = n.chars := String.toList_ofList

theorem isDigit_whole {c : Char} (h : c ∈ n.whole) : c.isDigit = true :=
  n.isDigit c (List.mem_append_left _ h)

theorem isDigit_fraction {digits : List Char} (h : n.fraction = some digits) {c : Char}
    (hc : c ∈ digits) : c.isDigit = true :=
  n.isDigit c (List.mem_append_right _ (by rwa [h]))

theorem isDigit_or_point {c : Char} (h : c ∈ n.chars) : c.isDigit = true ∨ c = '.' := by
  rcases List.mem_append.mp h with h | h
  · exact Or.inl (n.isDigit_whole h)
  · cases hf : n.fraction with
    | none => simp [hf] at h
    | some digits =>
      rw [hf, Option.elim_some, List.mem_cons] at h
      exact h.symm.imp_left (n.isDigit_fraction hf)

theorem isBlank_text : ∀ c ∈ n.text.toList, Text.isBlank c = false := by
  intro c hc
  rw [toList_text] at hc
  rcases n.isDigit_or_point hc with h | rfl
  · exact Text.isBlank_of_isDigit h
  · decide

theorem chars_cases : (∃ c cs, n.chars = c :: cs ∧ c.isDigit = true ∧ n.whole ≠ []) ∨
    ∃ c cs, n.whole = [] ∧ n.fraction = some (c :: cs) ∧ c.isDigit = true := by
  cases hw : n.whole with
  | cons c cs =>
    exact Or.inl ⟨c, _, by rw [chars, hw]; rfl, n.isDigit_whole (by simp [hw]), by simp⟩
  | nil =>
    cases hf : n.fraction with
    | none => exact absurd (by simp [hw, hf]) n.nonempty
    | some digits =>
      cases digits with
      | nil => exact absurd (by simp [hw, hf]) n.nonempty
      | cons c cs => exact Or.inr ⟨c, cs, rfl, rfl, n.isDigit_fraction hf (by simp)⟩

/-! ### Reading -/

theorem takeWhile_digits {digits r : List Char} (h : ∀ c ∈ digits, c.isDigit = true)
    (hr : ∀ c ∈ r.head?, c.isDigit = false) :
    (digits ++ r).takeWhile Char.isDigit = digits ∧
      (digits ++ r).dropWhile Char.isDigit = r := by
  rw [List.takeWhile_append_of_pos h, List.dropWhile_append_of_pos h]
  cases r with
  | nil => simp
  | cons c r =>
    have hc := hr c rfl
    rw [List.takeWhile_cons_of_neg (by simp [hc]), List.dropWhile_cons_of_neg (by simp [hc])]
    simp

theorem readMagnitude_chars : Number.readMagnitude n.chars = some n.value := by
  have hpoint : ∀ c ∈ (n.fraction.elim [] ('.' :: ·)).head?, c.isDigit = false := by
    cases n.fraction <;> simp
  obtain ⟨htake, hdrop⟩ := takeWhile_digits (fun c hc => n.isDigit_whole hc) hpoint
  unfold Number.readMagnitude
  rw [chars, htake, hdrop]
  cases hf : n.fraction with
  | none =>
    have hw : n.whole ≠ [] := by simpa [hf] using n.nonempty
    simp [hw, Number.readExponent, value, hf]
  | some digits =>
    obtain ⟨htake, hdrop⟩ := takeWhile_digits (r := [])
      (fun c hc => n.isDigit_fraction hf hc) (by simp)
    rw [List.append_nil] at htake hdrop
    have hne : ¬ (n.whole.isEmpty && digits.isEmpty) = true := by
      simpa [hf] using n.nonempty
    simp only [Option.elim_some, htake, hdrop]
    rw [if_neg hne]
    simp [Number.readExponent, value, hf]

theorem toLower_of_isDigit {c : Char} (h : c.isDigit = true) : c.toLower = c := by
  simp only [Char.isDigit, Bool.and_eq_true, decide_eq_true_eq, UInt32.le_iff_toNat_le,
    ge_iff_le] at h
  have hnine : '9'.val.toNat = 57 := rfl
  have hletter : 'A'.val.toNat = 65 := rfl
  unfold Char.toLower
  rw [dif_neg]
  simp only [ge_iff_le, UInt32.le_iff_toNat_le]
  omega

theorem read?_text : Number.read? n.text = some n.value := by
  have hhead : ∃ c cs, n.chars = c :: cs ∧ (c.isDigit = true ∨ c = '.') := by
    rcases n.chars_cases with ⟨c, cs, h, hc, -⟩ | ⟨c, cs, hw, hf, -⟩
    · exact ⟨c, cs, h, Or.inl hc⟩
    · exact ⟨'.', c :: cs, by rw [chars, hw, hf]; rfl, Or.inr rfl⟩
  obtain ⟨c, cs, hcs, hc⟩ := hhead
  have hlower : c.toLower = c := by
    rcases hc with hc | rfl
    · exact toLower_of_isDigit hc
    · decide
  have hword {w : String} {d : Char} {ds : List Char} (hw : w.toList = d :: ds)
      (hd : d.isDigit = false ∧ d ≠ '.') : String.ofList (n.chars.map Char.toLower) ≠ w := by
    rintro rfl
    rw [String.toList_ofList, hcs, List.map_cons, hlower, List.cons.injEq] at hw
    obtain ⟨rfl, -⟩ := hw
    rcases hc with hc | rfl
    · rw [hc] at hd
      cases hd.1
    · exact hd.2 rfl
  have hsign : Number.splitSign n.chars = (false, n.chars) := by
    unfold Number.splitSign
    split
    · next heq =>
      rw [hcs, List.cons.injEq] at heq
      obtain ⟨rfl, -⟩ := heq
      rcases hc with hc | hc <;> cases hc
    · next heq =>
      rw [hcs, List.cons.injEq] at heq
      obtain ⟨rfl, -⟩ := heq
      rcases hc with hc | hc <;> cases hc
    · rfl
  unfold Number.read?
  rw [toList_text, hsign]
  simp only [Bool.false_eq_true, if_false]
  split
  · next heq => exact absurd heq (hword rfl (by decide))
  · next heq => exact absurd heq (hword rfl (by decide))
  · next heq => exact absurd heq (hword rfl (by decide))
  · rw [readMagnitude_chars]
    rfl

/-! ### Scanning -/

theorem numeral_of_whole {c : Char} {cs rest : List Char} (h : n.chars = c :: cs)
    (hw : n.whole ≠ []) :
    numeral c (cs ++ ';' :: rest) = (.number n.value, cs.length) := by
  obtain ⟨d, ds, hwhole⟩ := List.exists_cons_of_ne_nil hw
  rw [chars, hwhole, List.cons_append, List.cons.injEq] at h
  obtain ⟨rfl, rfl⟩ := h
  have hd : d.isDigit = true := n.isDigit_whole (by simp [hwhole])
  have hds : ∀ c ∈ ds, c.isDigit = true := fun c hc => n.isDigit_whole (by simp [hwhole, hc])
  have hpoint : d ≠ '.' := by
    rintro rfl
    cases hd
  unfold numeral
  dsimp only
  rw [if_neg hpoint, List.append_assoc]
  cases hf : n.fraction with
  | none =>
    obtain ⟨htake, -⟩ := takeWhile_digits hds (r := ';' :: rest) (by simp)
    simp only [Option.elim_none, List.nil_append, List.append_nil]
    rw [htake, List.drop_left]
    simp [value, hwhole, hf]
  | some digits =>
    obtain ⟨htake, -⟩ := takeWhile_digits hds (r := '.' :: (digits ++ ';' :: rest)) (by simp)
    obtain ⟨htake', -⟩ := takeWhile_digits (fun c hc => n.isDigit_fraction hf hc)
      (r := ';' :: rest) (by simp)
    simp only [Option.elim_some, List.cons_append]
    rw [htake, List.drop_left]
    simp only [htake']
    simp [value, hwhole, hf, Nat.add_assoc, Nat.add_comm 1]

theorem exists_piece (atStart : Bool) (rest : List Char) : ∃ c cs, n.chars = c :: cs ∧
    piece atStart c (cs ++ ';' :: rest) = .ok (.token (.number n.value), cs.length) := by
  rcases n.chars_cases with ⟨c, cs, h, hc, hw⟩ | ⟨c, cs, hw, hf, hc⟩
  · refine ⟨c, cs, h, ?_⟩
    rw [piece_of_isDigit hc, n.numeral_of_whole h hw]
  · refine ⟨'.', c :: cs, by rw [chars, hw, hf]; rfl, ?_⟩
    obtain ⟨htake, -⟩ := takeWhile_digits (fun d hd => n.isDigit_fraction hf hd)
      (r := ';' :: rest) (by simp)
    have hp : piece atStart '.' (c :: cs ++ ';' :: rest) =
        if startsDigit (c :: cs ++ ';' :: rest) then
          .ok (.token (numeral '.' (c :: cs ++ ';' :: rest)).1,
            (numeral '.' (c :: cs ++ ';' :: rest)).2)
        else .ok (.token (.symbol .dot), 0) := rfl
    rw [hp, List.cons_append, startsDigit, if_pos hc, ← List.cons_append]
    unfold numeral
    dsimp only
    rw [if_pos rfl, htake, value, hw, hf]
    rfl

end Numeral

/-! ### Tokens and their texts -/

/-- From any place, the text is cut into tokens of the given kinds and texts. -/
def CutsTo (atStart : Bool) (cs : List Char) (items : List (Kind × String)) : Prop :=
  ∀ pos, ∃ tokens, scanFrom atStart false pos cs = .ok tokens ∧
    tokens.map (fun t => (t.kind, t.lexeme)) = items

namespace CutsTo

variable {atStart : Bool} {c : Char} {cs rest : List Char} {kind : Kind}
  {items : List (Kind × String)} {n : Nat}

theorem nil : CutsTo atStart [] [(.endOfInput, "")] := by
  intro pos
  exact ⟨_, by rw [scanFrom], rfl⟩

theorem gap (hp : piece atStart c cs = .ok (.gap, 0)) (h : CutsTo atStart cs items) :
    CutsTo atStart (c :: cs) items := by
  intro pos
  obtain ⟨tokens, hscan, hitems⟩ := h (pos.after [c])
  refine ⟨tokens, ?_, hitems⟩
  rw [scanFrom, hp]
  exact hscan

theorem blank (h : CutsTo atStart cs items) : CutsTo atStart (' ' :: cs) items :=
  gap rfl h

theorem newLine (h : CutsTo atStart cs items) : CutsTo atStart ('\n' :: cs) items :=
  gap rfl h

theorem token {w : List Char} (hp : piece atStart c (w ++ rest) = .ok (.token kind, w.length))
    (hk : ∀ k, kind ≠ .keyword k) (h : CutsTo (kind == .symbol .semicolon) rest items) :
    CutsTo atStart (c :: w ++ rest) ((kind, String.ofList (c :: w)) :: items) := by
  intro pos
  obtain ⟨tokens, hscan, hitems⟩ := h (pos.after (c :: w))
  have hlexeme : lexemeOf kind (c :: w) = String.ofList (c :: w) := by
    unfold lexemeOf
    split
    · exact absurd rfl (hk _)
    · rfl
  have hdata : (kind == .keyword .DATALINES) = false := beq_eq_false_iff_ne.mpr (hk _)
  refine ⟨⟨kind, String.ofList (c :: w), pos⟩ :: tokens, ?_,
    congrArg ((kind, String.ofList (c :: w)) :: ·) hitems⟩
  rw [List.cons_append, scanFrom, hp]
  dsimp only
  rw [List.take_left, List.drop_left, if_neg (by simp), hlexeme, hdata, Bool.false_and,
    Bool.false_and, Bool.or_false, hscan]
  rfl

theorem semicolon (h : CutsTo true rest items) :
    CutsTo atStart (';' :: rest) ((.symbol .semicolon, ";") :: items) :=
  token (w := []) rfl (by simp) h

theorem assign (h : CutsTo false (' ' :: rest) items) :
    CutsTo atStart ('=' :: ' ' :: rest) ((.symbol .assign, "=") :: items) :=
  token (w := []) rfl (by simp) h

theorem letWord (h : CutsTo false (' ' :: rest) items) :
    CutsTo atStart ('%' :: 'l' :: 'e' :: 't' :: ' ' :: rest)
      ((.macroWord .LET, "%let") :: items) := by
  have hlet : Kind.ofMacroWord? "let" = some (.macroWord .LET) := by decide +kernel
  have hp : piece atStart '%' (['l', 'e', 't'] ++ ' ' :: rest) =
      .ok (.token (.macroWord .LET), 3) := by
    unfold piece
    dsimp only
    split
    case h_26 =>
      have hstart : startsName (['l', 'e', 't'] ++ ' ' :: rest) = true := rfl
      rw [if_pos hstart]
      split
      · rename_i kind hkind
        obtain rfl : kind = .macroWord .LET := Option.some.inj (hkind.symm.trans hlet)
        rfl
      · rename_i hnone
        cases hnone.symm.trans hlet
    case h_30 => contradiction
    all_goals
      rename_i hchar
      exact absurd hchar (by decide)
  exact token (w := ['l', 'e', 't']) hp (by simp) h

theorem numeral (n : Numeral) (h : CutsTo false (';' :: rest) items) :
    CutsTo atStart (n.chars ++ ';' :: rest) ((.number n.value, n.text) :: items) := by
  obtain ⟨c, cs, hn, hp⟩ := n.exists_piece atStart rest
  rw [Numeral.text, hn]
  exact token hp (by simp) h

theorem name {name : String} (hn : IsPlainName name) (hr : nameLength rest = 0)
    (h : CutsTo false rest items) :
    CutsTo atStart (name.toList ++ rest) ((.name name, name) :: items) := by
  obtain ⟨c, w, hname, hc, hw⟩ := hn.letters
  have htext : String.ofList (c :: w) = name := by rw [← hname, String.ofList_toList]
  have hp : piece atStart c (w ++ rest) = .ok (.token (.name name), w.length) :=
    piece_word hc hw hr (by rw [htext, hn.unreserved, Option.getD_none]) (by simp)
  rw [hname]
  have := token hp (by simp) h
  rwa [htext] at this

/-- A reference to a macro variable, up to a character that does not go on with its name. -/
theorem macroReference {name : String} (hn : IsPlainName name)
    (hr : nameLength rest = 0) (hpoint : rest.head? ≠ some '.') (h : CutsTo false rest items) :
    CutsTo atStart ('&' :: name.toList ++ rest)
      ((.macroName name, String.ofList ('&' :: name.toList)) :: items) := by
  obtain ⟨c, w, hname, hc, hw⟩ := hn.letters
  have hall : name.toList.all Text.isNameChar = true :=
    List.all_eq_true.mpr (Storage.IsIdentifier.isNameChar ⟨c, w, hname, hc, hw⟩)
  have hlength := nameLength_append hall hr
  have hp : piece atStart '&' (name.toList ++ rest) =
      if startsName (name.toList ++ rest) then
        .ok (.token (Token.macroReference (name.toList ++ rest)).1,
          (Token.macroReference (name.toList ++ rest)).2)
      else .ok (.token (.keyword .AND), 0) := rfl
  have href : Token.macroReference (name.toList ++ rest) =
      (.macroName name, name.toList.length) := by
    unfold Token.macroReference
    dsimp only
    rw [hlength, List.take_left, List.drop_left, String.ofList_toList]
    split
    · exact absurd rfl hpoint
    · rfl
  refine token ?_ (by simp) h
  rw [hp, href, hname, List.cons_append, startsName, if_pos hc]

end CutsTo

end StepLang.Token
