import StepLang.Proofs.Json.Texts

/-! # Documents that read back

A document reads back as it was written if its numbers do, whatever stands behind it.
-/

namespace StepLang.Json

/-- A document that can be written and whose numbers read back. -/
inductive Document.Exact : Document → Prop
  | null : Exact .null
  | bool (b : Bool) : Exact (.bool b)
  | integer {n : Int} : readNumber (toString n).toList = some (.integer n, []) → Exact (.integer n)
  | number {x : Float} : readNumber (numberText x).toList = some (.number x, []) →
    Exact (.number x)
  | text (s : String) : Exact (.text s)
  | list {items : List Document} : (∀ item ∈ items, item.Exact) → Exact (.list items)
  | record {members : List (String × Document)} : (∀ member ∈ members, member.2.Exact) →
    Exact (.record members)

/-! ### What is written -/

attribute [local simp] write writeItems writeMembers

/-- The characters of a line feed and of the indentation of a level. -/
def indent (level : Nat) : List Char := '\n' :: List.replicate (2 * level) ' '

theorem toList_newLine (level : Nat) : (newLine level).toList = indent level := String.toList_ofList

section

variable (level : Nat)

theorem toList_write_null : (write level .null).toList = ['n', 'u', 'l', 'l'] := by
  simp

theorem toList_write_true : (write level (.bool true)).toList = ['t', 'r', 'u', 'e'] := by
  simp

theorem toList_write_false : (write level (.bool false)).toList = ['f', 'a', 'l', 's', 'e'] := by
  simp

theorem toList_write_text (s : String) :
    (write level (.text s)).toList = '"' :: (s.toList.flatMap escape ++ ['"']) := by
  rw [write, toList_quote]
  rfl

theorem toList_write_list_nil : (write level (.list [])).toList = ['[', ']'] := by
  simp

theorem toList_write_list (item : Document) (items : List Document) :
    (write level (.list (item :: items))).toList =
      '[' :: (indent (level + 1) ++ (write (level + 1) item).toList ++
        (writeItems (level + 1) items).toList ++ indent level ++ [']']) := by
  simp [toList_newLine]

theorem toList_write_record_nil : (write level (.record [])).toList = ['\x7b', '\x7d'] := by
  simp

theorem toList_write_record (key : String) (value : Document)
    (members : List (String × Document)) :
    (write level (.record ((key, value) :: members))).toList =
      '\x7b' :: (indent (level + 1) ++ '"' :: (key.toList.flatMap escape ++ '"' :: ':' :: ' ' ::
        (write (level + 1) value).toList) ++ (writeMembers (level + 1) members).toList ++
          indent level ++ ['\x7d']) := by
  simp [toList_newLine, toList_quote]

theorem toList_writeItems_nil : (writeItems level []).toList = [] := by
  simp

theorem toList_writeItems (item : Document) (items : List Document) :
    (writeItems level (item :: items)).toList =
      ',' :: (indent level ++ (write level item).toList ++ (writeItems level items).toList) := by
  simp [toList_newLine]

theorem toList_writeMembers_nil : (writeMembers level []).toList = [] := by
  simp

theorem toList_writeMembers (key : String) (value : Document)
    (members : List (String × Document)) :
    (writeMembers level ((key, value) :: members)).toList =
      ',' :: (indent level ++ '"' :: (key.toList.flatMap escape ++ '"' :: ':' :: ' ' ::
        (write level value).toList) ++ (writeMembers level members).toList) := by
  simp [toList_newLine, toList_quote]

end

/-! ### What is read -/

attribute [local simp] readValue readItems readMembers

/-- A value starts here, and no list ends. -/
def StartsValue (cs : List Char) : Prop :=
  ∃ c tail, cs = c :: tail ∧ isSpace c = false ∧ c ≠ ']'

theorem isSpace_of_number {c : Char} (h : c = '-' ∨ c.isDigit = true) :
    isSpace c = false ∧ c ≠ ']' := by
  rcases h with rfl | h
  · decide
  · constructor
    · cases hspace : isSpace c with
      | false => rfl
      | true =>
        simp only [isSpace, Bool.or_eq_true, beq_iff_eq] at hspace
        rcases hspace with ((rfl | rfl) | rfl) | rfl <;> cases h
    · rintro rfl
      cases h

theorem startsValue_of_readNumber {cs more : List Char} {d : Document}
    (h : readNumber cs = some (d, more)) : StartsValue cs := by
  obtain ⟨c, tail, rfl, hc⟩ := exists_of_readNumber h
  exact ⟨c, tail, rfl, isSpace_of_number hc⟩

theorem startsValue_write {d : Document} (h : d.Exact) (level : Nat) :
    StartsValue (write level d).toList := by
  cases h with
  | null => exact ⟨_, _, toList_write_null level, by decide, by decide⟩
  | bool b =>
    cases b
    · exact ⟨_, _, toList_write_false level, by decide, by decide⟩
    · exact ⟨_, _, toList_write_true level, by decide, by decide⟩
  | integer h => simpa using startsValue_of_readNumber h
  | number h => simpa using startsValue_of_readNumber h
  | text s => exact ⟨_, _, toList_write_text level s, by decide, by decide⟩
  | @list items _ =>
    cases items with
    | nil => exact ⟨_, _, toList_write_list_nil level, by decide, by decide⟩
    | cons item items => exact ⟨_, _, toList_write_list level item items, by decide, by decide⟩
  | @record members _ =>
    cases members with
    | nil => exact ⟨_, _, toList_write_record_nil level, by decide, by decide⟩
    | cons member members =>
      exact ⟨_, _, toList_write_record level member.1 member.2 members, by decide, by decide⟩

theorem skipSpace_indent (level : Nat) (cs : List Char) :
    skipSpace (indent level ++ cs) = skipSpace cs := by
  unfold skipSpace
  apply List.dropWhile_append_of_pos
  intro c hc
  rcases List.mem_cons.mp hc with rfl | hc
  · decide
  · rw [List.eq_of_mem_replicate hc]
    decide

theorem StartsValue.skipSpace_eq {cs : List Char} (h : StartsValue cs) (rest : List Char) :
    skipSpace (cs ++ rest) = cs ++ rest := by
  obtain ⟨c, tail, rfl, hc, -⟩ := h
  exact List.dropWhile_cons_of_neg (by simp [hc])

theorem stops_indent (level : Nat) (rest : List Char) : Stops (indent level ++ rest) :=
  .cons (by decide) _

theorem readValue_indent (bound level : Nat) (cs : List Char) :
    readValue bound (indent level ++ cs) = readValue bound cs := by
  cases bound with
  | zero => rw [readValue, readValue]
  | succ bound => rw [readValue, readValue, skipSpace_indent]

theorem readValue_blank (bound : Nat) (cs : List Char) :
    readValue bound (' ' :: cs) = readValue bound cs := by
  cases bound with
  | zero => rw [readValue, readValue]
  | succ bound => rw [readValue, readValue]; rfl

theorem readValue_number {c : Char} (h : c = '-' ∨ c.isDigit = true) (bound : Nat)
    (tail : List Char) : readValue (bound + 1) (c :: tail) = readNumber (c :: tail) := by
  have hspace : skipSpace (c :: tail) = c :: tail :=
    List.dropWhile_cons_of_neg (by simp [(isSpace_of_number h).1])
  have hne (c' : Char) (h' : c' ≠ '-') (hdigit : c'.isDigit = false) : c ≠ c' := by
    rintro rfl
    rcases h with h | h
    · exact h' h
    · rw [h] at hdigit
      cases hdigit
  rw [readValue, hspace]
  split
  case h_7 => rfl
  all_goals
    next heq => exact absurd (List.cons.inj heq).1 (hne _ (by decide) (by decide))

/-- A document reads back on every level, whatever stands behind it. -/
def ReadsBack (d : Document) : Prop :=
  ∀ (level bound : Nat) (rest : List Char), Stops rest → (write level d).toList.length < bound →
    readValue bound ((write level d).toList ++ rest) = some (d, rest)

theorem readsBack_of_number {d : Document} {text : String} (hw : ∀ level, write level d = text)
    (h : readNumber text.toList = some (d, [])) : ReadsBack d := by
  intro level bound rest hr hb
  obtain ⟨c, tail, hcs, hc⟩ := exists_of_readNumber h
  obtain ⟨bound, rfl⟩ := Nat.exists_eq_add_one_of_ne_zero (Nat.ne_of_gt (Nat.zero_lt_of_lt hb))
  have hread := readNumber_append hr h
  rw [hw, hcs, List.cons_append, readValue_number hc, ← List.cons_append, ← hcs]
  exact hread

theorem readsBack_text (s : String) : ReadsBack (.text s) := by
  intro level bound rest hr hb
  obtain ⟨bound, rfl⟩ := Nat.exists_eq_add_one_of_ne_zero (Nat.ne_of_gt (Nat.zero_lt_of_lt hb))
  rw [toList_write_text, List.cons_append, List.append_assoc, List.singleton_append, readValue]
  change (readString (s.toList.flatMap escape ++ '"' :: rest)).bind _ = _
  rw [readString_quote]
  rfl

theorem readItems_write {item : Document} {items : List Document} {level : Nat}
    (hitem : ReadsBack item) (hitems : ∀ other ∈ items, ReadsBack other) (outer : Nat)
    (rest : List Char) {bound : Nat}
    (hb : (write level item).toList.length + (writeItems level items).toList.length + 1 < bound) :
    readItems bound (indent level ++ ((write level item).toList ++
      ((writeItems level items).toList ++ (indent outer ++ ']' :: rest)))) =
        some (item :: items, rest) := by
  -- The bound goes down by one an item, and every item takes a comma at least.
  induction items generalizing item bound with
  | nil =>
    obtain ⟨bound, rfl⟩ := Nat.exists_eq_add_one_of_ne_zero (Nat.ne_of_gt (Nat.zero_lt_of_lt hb))
    rw [toList_writeItems_nil, List.nil_append, readItems, readValue_indent,
      hitem level bound _ (stops_indent _ _) (by omega), Option.bind_eq_bind, Option.bind_some]
    dsimp only
    rw [skipSpace_indent]
    rfl
  | cons next items ih =>
    rw [List.forall_mem_cons] at hitems
    obtain ⟨bound, rfl⟩ := Nat.exists_eq_add_one_of_ne_zero (Nat.ne_of_gt (Nat.zero_lt_of_lt hb))
    rw [toList_writeItems, List.length_cons, List.length_append, List.length_append] at hb
    have hrest := ih hitems.1 hitems.2 (show _ < bound by omega)
    rw [toList_writeItems, List.cons_append, List.append_assoc, List.append_assoc, readItems,
      readValue_indent, hitem level bound _ (.cons (by decide) _) (by omega), Option.bind_eq_bind,
      Option.bind_some]
    change (readItems bound _).bind _ = _
    rw [hrest]
    rfl

theorem readMembers_write {key : String} {value : Document} {members : List (String × Document)}
    {level : Nat} (hvalue : ReadsBack value) (hmembers : ∀ other ∈ members, ReadsBack other.2)
    (outer : Nat) (rest : List Char) {bound : Nat}
    (hb : (write level value).toList.length + (writeMembers level members).toList.length + 1 <
      bound) :
    readMembers bound (indent level ++ '"' :: (key.toList.flatMap escape ++ '"' :: ':' :: ' ' ::
      ((write level value).toList ++ ((writeMembers level members).toList ++
        (indent outer ++ '\x7d' :: rest))))) = some (some ((key, value) :: members), rest) := by
  induction members generalizing key value bound with
  | nil =>
    obtain ⟨bound, rfl⟩ := Nat.exists_eq_add_one_of_ne_zero (Nat.ne_of_gt (Nat.zero_lt_of_lt hb))
    rw [toList_writeMembers_nil, List.nil_append, readMembers, skipSpace_indent]
    change (readString _).bind _ = _
    rw [readString_quote, Option.bind_some]
    change (readValue bound (' ' :: _)).bind _ = _
    rw [readValue_blank, hvalue level bound _ (stops_indent _ _) (by omega), Option.bind_some]
    dsimp only
    rw [skipSpace_indent]
    rfl
  | cons next members ih =>
    obtain ⟨key', value'⟩ := next
    rw [List.forall_mem_cons] at hmembers
    obtain ⟨bound, rfl⟩ := Nat.exists_eq_add_one_of_ne_zero (Nat.ne_of_gt (Nat.zero_lt_of_lt hb))
    rw [toList_writeMembers] at hb
    simp only [List.length_cons, List.length_append] at hb
    have hvalue' : ReadsBack value' := hmembers.1
    have hrest := @ih key' value' hvalue' hmembers.2 bound (by omega)
    rw [toList_writeMembers, readMembers, skipSpace_indent]
    simp only [List.cons_append, List.append_assoc]
    change (readString _).bind _ = _
    rw [readString_quote, Option.bind_some]
    change (readValue bound (' ' :: _)).bind _ = _
    rw [readValue_blank, hvalue level bound _ (.cons (by decide) _) (by omega), Option.bind_some]
    change (readMembers bound _).bind _ = _
    rw [hrest]
    rfl

theorem readValue_list {cs : List Char} (h : StartsValue (skipSpace cs)) (bound : Nat) :
    readValue (bound + 1) ('[' :: cs) =
      (readItems bound cs).map fun (items, rest) => (.list items, rest) := by
  obtain ⟨c, tail, hcs, -, hc⟩ := h
  rw [readValue, show skipSpace ('[' :: cs) = '[' :: cs from rfl]
  split
  case h_5 heq =>
    cases heq
    rw [hcs]
    split
    · next heq => exact absurd (List.cons.inj heq).1 hc
    · cases readItems bound cs <;> rfl
  case h_7 hlist _ => exact absurd rfl (hlist cs)
  all_goals
    next heq => exact absurd (List.cons.inj heq).1 (by decide)

theorem readValue_record {cs tail : List Char} (h : skipSpace cs = '"' :: tail) (bound : Nat) :
    readValue (bound + 1) ('\x7b' :: cs) = (readMembers bound cs).map fun (members, rest) =>
      (members.elim .broken .record, rest) := by
  rw [readValue, show skipSpace ('\x7b' :: cs) = '\x7b' :: cs from rfl]
  split
  case h_6 heq =>
    cases heq
    rw [h]
    cases readMembers bound cs <;> rfl
  case h_7 hrecord => exact absurd rfl (hrecord cs)
  all_goals
    next heq => exact absurd (List.cons.inj heq).1 (by decide)

/-- A document whose numbers read back does so itself. -/
theorem Document.Exact.readsBack {d : Document} (h : d.Exact) : ReadsBack d := by
  -- By the way the document is made, which gives the statement for all items and members.
  induction h with
  | null =>
    intro level bound rest hr hb
    obtain ⟨bound, rfl⟩ := Nat.exists_eq_add_one_of_ne_zero (Nat.ne_of_gt (Nat.zero_lt_of_lt hb))
    rw [toList_write_null, readValue]
    rfl
  | bool b =>
    intro level bound rest hr hb
    obtain ⟨bound, rfl⟩ := Nat.exists_eq_add_one_of_ne_zero (Nat.ne_of_gt (Nat.zero_lt_of_lt hb))
    cases b
    · rw [toList_write_false, readValue]
      rfl
    · rw [toList_write_true, readValue]
      rfl
  | integer h => exact readsBack_of_number (fun _ => by rw [write]) h
  | number h => exact readsBack_of_number (fun _ => by rw [write]) h
  | text s => exact readsBack_text s
  | @list items hexact ih =>
    intro level bound rest hr hb
    obtain ⟨bound, rfl⟩ := Nat.exists_eq_add_one_of_ne_zero (Nat.ne_of_gt (Nat.zero_lt_of_lt hb))
    cases items with
    | nil =>
      rw [toList_write_list_nil, readValue]
      rfl
    | cons item items =>
      rw [List.forall_mem_cons] at ih hexact
      have hstarts := startsValue_write hexact.1 (level + 1)
      rw [toList_write_list] at hb ⊢
      simp only [List.length_cons, List.length_append] at hb
      simp only [List.cons_append, List.nil_append, List.append_assoc]
      rw [readValue_list, readItems_write ih.1 ih.2 level rest (by omega)]
      · rfl
      · rw [skipSpace_indent, hstarts.skipSpace_eq]
        obtain ⟨c, tail, hcs, hc⟩ := hstarts
        exact ⟨c, _, by rw [hcs, List.cons_append], hc⟩
  | @record members _ ih =>
    intro level bound rest hr hb
    obtain ⟨bound, rfl⟩ := Nat.exists_eq_add_one_of_ne_zero (Nat.ne_of_gt (Nat.zero_lt_of_lt hb))
    cases members with
    | nil =>
      rw [toList_write_record_nil, readValue]
      rfl
    | cons member members =>
      obtain ⟨key, value⟩ := member
      rw [List.forall_mem_cons] at ih
      have hvalue : ReadsBack value := ih.1
      rw [toList_write_record] at hb ⊢
      simp only [List.length_cons, List.length_append] at hb
      simp only [List.cons_append, List.nil_append, List.append_assoc]
      rw [readValue_record, readMembers_write hvalue ih.2 level rest (by omega)]
      · rfl
      · rw [skipSpace_indent]
        rfl

/-- A document whose numbers read back is what its text denotes. -/
theorem read?_write {d : Document} (h : d.Exact) : read? (write 0 d) = some d := by
  have hread := h.readsBack 0 (2 * (write 0 d).toList.length + 2) [] .nil (by omega)
  rw [List.append_nil] at hread
  unfold read?
  dsimp only
  rw [hread]
  rfl

end StepLang.Json
