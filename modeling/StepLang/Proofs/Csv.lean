import StepLang.Csv.Reader
import StepLang.Csv.Writer
import StepLang.Proofs.Text.Utf8

/-! # Records that read back

Records of texts read back as they were written, whatever the texts are, if all of them have as many
fields as the header has.
-/

namespace StepLang.Csv

def textBytes (s : String) : List UInt8 := s.toList.flatMap String.utf8EncodeChar

/-- The byte divides fields or records, or quotes them. -/
def isSpecial (b : UInt8) : Bool := b == comma || b == quote || isLineEnd b

/-- A quote is written twice. -/
def double (b : UInt8) : List UInt8 := if b == quote then [b, b] else [b]

def fieldBytes (bs : List UInt8) : List UInt8 :=
  if bs.any isSpecial then quote :: (bs.flatMap double ++ [quote]) else bs

def recordBytes (fields : List (List UInt8)) : List UInt8 :=
  let line := [comma].intercalate (fields.map fieldBytes)
  (if line.isEmpty then [quote, quote] else line) ++ [lineFeed]

/-! ### What is written -/

theorem encodeChar_of_le {c : Char} (h : 0x80 ≤ c.toNat) :
    ∀ b ∈ String.utf8EncodeChar c, 0x80 ≤ b.toNat := by
  have hval : c.val.toNat = c.toNat := rfl
  fun_cases String.utf8EncodeChar c with
  | case1 n h' => omega
  | case2 n _ _ =>
    simp only [List.forall_mem_cons, List.not_mem_nil, false_imp_iff, implies_true, and_true]
    rw [Text.toNat_ofNat_of_lt (by omega), Text.toNat_ofNat_of_lt (by omega)]
    omega
  | case3 n _ _ _ =>
    simp only [List.forall_mem_cons, List.not_mem_nil, false_imp_iff, implies_true, and_true]
    rw [Text.toNat_ofNat_of_lt (by omega), Text.toNat_ofNat_of_lt (by omega),
      Text.toNat_ofNat_of_lt (by omega)]
    omega
  | case4 n _ _ _ =>
    simp only [List.forall_mem_cons, List.not_mem_nil, false_imp_iff, implies_true, and_true]
    rw [Text.toNat_ofNat_of_lt (by omega), Text.toNat_ofNat_of_lt (by omega),
      Text.toNat_ofNat_of_lt (by omega), Text.toNat_ofNat_of_lt (by omega)]
    omega

theorem isSpecial_of_le {b : UInt8} (h : 0x80 ≤ b.toNat) : isSpecial b = false := by
  cases hb : isSpecial b with
  | false => rfl
  | true =>
    simp only [isSpecial, isLineEnd, Bool.or_eq_true, beq_iff_eq] at hb
    rcases hb with (rfl | rfl) | rfl | rfl <;> exact absurd h (by decide)

/-- A character needs quotes if one of its bytes does. -/
theorem any_isSpecial_encodeChar (c : Char) :
    (String.utf8EncodeChar c).any isSpecial = (c == ',' || c == '"' || c == '\r' || c == '\n') := by
  -- The first 128 characters are looked at one by one; no byte of the others is special.
  by_cases h : c.toNat < 0x80
  · have hascii : ∀ n < 0x80, (String.utf8EncodeChar (Char.ofNat n)).any isSpecial =
        (Char.ofNat n == ',' || Char.ofNat n == '"' || Char.ofNat n == '\r' ||
          Char.ofNat n == '\n') := by
      decide +kernel
    have := hascii c.toNat h
    rwa [Char.ofNat_toNat] at this
  · have hle : 0x80 ≤ c.toNat := Nat.le_of_not_lt h
    have hany : (String.utf8EncodeChar c).any isSpecial = false := by
      rw [List.any_eq_false]
      intro b hb
      rw [isSpecial_of_le (encodeChar_of_le hle b hb)]
      exact Bool.false_ne_true
    rw [hany]
    symm
    simp only [Bool.or_eq_false_iff, beq_eq_false_iff_ne]
    refine ⟨⟨⟨?_, ?_⟩, ?_⟩, ?_⟩ <;> (rintro rfl; exact absurd hle (by decide))

theorem flatMap_double_of_ne {bs : List UInt8} (h : ∀ b ∈ bs, b ≠ quote) :
    bs.flatMap double = bs := by
  induction bs with
  | nil => rfl
  | cons b bs ih =>
    rw [List.forall_mem_cons] at h
    rw [List.flatMap_cons, ih h.2, double, if_neg (by simpa using h.1), List.singleton_append]

theorem flatMap_double_encodeChar (c : Char) : (String.utf8EncodeChar c).flatMap double =
    (if c = '"' then ['"', '"'] else [c]).flatMap String.utf8EncodeChar := by
  by_cases h : c.toNat < 0x80
  · have hascii : ∀ n < 0x80, (String.utf8EncodeChar (Char.ofNat n)).flatMap double =
        (if Char.ofNat n = '"' then ['"', '"'] else [Char.ofNat n]).flatMap
          String.utf8EncodeChar := by
      decide +kernel
    have := hascii c.toNat h
    rwa [Char.ofNat_toNat] at this
  · have hle : 0x80 ≤ c.toNat := Nat.le_of_not_lt h
    have hne : c ≠ '"' := by
      rintro rfl
      exact absurd hle (by decide)
    rw [if_neg hne, List.flatMap_singleton, flatMap_double_of_ne]
    intro b hb
    rintro rfl
    exact absurd (encodeChar_of_le hle quote hb) (by decide)

theorem textBytes_append (s t : String) : textBytes (s ++ t) = textBytes s ++ textBytes t := by
  rw [textBytes, String.toList_append, List.flatMap_append]
  rfl

theorem textBytes_writeField (s : String) :
    textBytes (writeField s) = fieldBytes (textBytes s) := by
  have hneeds : needsQuotes s = (textBytes s).any isSpecial := by
    rw [needsQuotes, textBytes, List.any_flatMap]
    exact congrArg s.toList.any (funext fun c => (any_isSpecial_encodeChar c).symm)
  have hquote : textBytes "\"" = [quote] := by decide
  have hdouble : textBytes (String.ofList (s.toList.flatMap
      fun c => if c = '"' then ['"', '"'] else [c])) = (textBytes s).flatMap double := by
    rw [textBytes, textBytes, String.toList_ofList, List.flatMap_assoc, List.flatMap_assoc]
    exact congrArg s.toList.flatMap (funext fun c => (flatMap_double_encodeChar c).symm)
  unfold writeField fieldBytes
  rw [hneeds]
  split
  · rw [textBytes_append, textBytes_append, hquote, hdouble]
    rfl
  · rfl

theorem textBytes_intercalate (texts : List String) :
    textBytes (",".intercalate texts) = [comma].intercalate (texts.map textBytes) := by
  induction texts with
  | nil => rfl
  | cons s texts ih =>
    cases texts with
    | nil => simp
    | cons t texts =>
      rw [String.intercalate_cons_cons, textBytes_append, textBytes_append, ih]
      simp only [List.map_cons, List.intercalate_cons_cons]
      rfl

theorem isEmpty_textBytes (s : String) : (textBytes s).isEmpty = s.isEmpty := by
  rw [Bool.eq_iff_iff, List.isEmpty_iff, String.isEmpty_iff]
  constructor
  · intro h
    rw [← String.toList_eq_nil_iff]
    rw [textBytes, List.flatMap_eq_nil_iff] at h
    cases hs : s.toList with
    | nil => rfl
    | cons c cs =>
      have hc : c ∈ s.toList := by
        rw [hs]
        exact List.mem_cons_self
      exact absurd (h c hc) String.utf8EncodeChar_ne_nil
  · rintro rfl
    rfl

theorem textBytes_writeRecord (fields : List String) :
    textBytes (writeRecord fields) = recordBytes (fields.map textBytes) := by
  have hline : textBytes (",".intercalate (fields.map writeField)) =
      [comma].intercalate ((fields.map textBytes).map fieldBytes) := by
    rw [textBytes_intercalate, List.map_map, List.map_map]
    apply congrArg [comma].intercalate
    apply List.map_congr_left
    intro s _
    rw [Function.comp_apply, Function.comp_apply, textBytes_writeField]
  unfold writeRecord recordBytes
  dsimp only
  rw [textBytes_append, ← hline, isEmpty_textBytes]
  split
  · rfl
  · rfl

theorem textBytes_write (records : List (List String)) :
    textBytes (write records) = (records.map (·.map textBytes)).flatMap recordBytes := by
  have hrecords : (fun fields => (writeRecord fields).toList.flatMap String.utf8EncodeChar) =
      fun fields => recordBytes (fields.map textBytes) := funext textBytes_writeRecord
  rw [write, textBytes, String.toList_join, List.flatMap_assoc, List.flatMap_map, List.flatMap_map,
    hrecords]

/-! ### What is read -/

def Place.after (p : Place) (bs : List UInt8) : Place := bs.foldl Place.next p

section

variable (field : List UInt8) (fields : List (List UInt8)) (p : Place) (rest : List UInt8)

attribute [local simp] readFields

theorem readFields_plain {b : UInt8} (h : isSpecial b = false) {mode : Mode}
    (hmode : mode = .start ∨ mode = .plain) :
    readFields mode field fields p (b :: rest) =
      readFields .plain (b :: field) fields (p.next b) rest := by
  simp only [isSpecial, Bool.or_eq_false_iff] at h
  obtain ⟨⟨hcomma, hquote⟩, hend⟩ := h
  rcases hmode with rfl | rfl
  · simp [hcomma, hquote, hend]
  · simp [hcomma, hquote, hend]

/-- Between quotes the bytes of a field are taken as they stand, and a quote from its double. -/
theorem readFields_quoted (bs : List UInt8) :
    readFields .quoted field fields p (bs.flatMap double ++ rest) =
      readFields .quoted (bs.reverse ++ field) fields (p.after (bs.flatMap double)) rest := by
  induction bs generalizing field p with
  | nil => rfl
  | cons b bs ih =>
    rw [List.flatMap_cons, List.append_assoc]
    by_cases hb : b = quote
    · subst hb
      have hdouble : double quote = [quote, quote] := by decide
      have hread :
          readFields .quoted field fields p ([quote, quote] ++ (bs.flatMap double ++ rest)) =
          readFields .quoted (quote :: field) fields ((p.next quote).next quote)
            (bs.flatMap double ++ rest) := by
        simp [quote, comma, isLineEnd, lineFeed, carriageReturn]
      rw [hdouble, hread, ih, List.reverse_cons, List.append_assoc]
      rfl
    · have hdouble : double b = [b] := if_neg (by simpa using hb)
      have hread : readFields .quoted field fields p ([b] ++ (bs.flatMap double ++ rest)) =
          readFields .quoted (b :: field) fields (p.next b) (bs.flatMap double ++ rest) := by
        simp [hb]
      rw [hdouble, hread, ih, List.reverse_cons, List.append_assoc]
      rfl

theorem readFields_unquoted {bs : List UInt8} (h : bs.any isSpecial = false) {mode : Mode}
    (hmode : mode = .start ∨ mode = .plain) :
    ∃ mode', (mode' = .start ∨ mode' = .plain) ∧
      readFields mode field fields p (bs ++ rest) =
        readFields mode' (bs.reverse ++ field) fields (p.after bs) rest := by
  induction bs generalizing field p mode with
  | nil => exact ⟨mode, hmode, rfl⟩
  | cons b bs ih =>
    rw [List.any_cons, Bool.or_eq_false_iff] at h
    obtain ⟨mode', hmode', hread⟩ := ih (b :: field) (p.next b) h.2 (.inr rfl)
    refine ⟨mode', hmode', ?_⟩
    rw [List.cons_append, readFields_plain _ _ _ _ h.1 hmode, hread, List.reverse_cons,
      List.append_assoc]
    rfl

/-- What was written for a field is read as the field. -/
theorem readFields_fieldBytes (bs : List UInt8) :
    ∃ mode, (mode = .start ∨ mode = .plain ∨ mode = .closing) ∧
      readFields .start [] fields p (fieldBytes bs ++ rest) =
        readFields mode bs.reverse fields (p.after (fieldBytes bs)) rest := by
  unfold fieldBytes
  cases h : bs.any isSpecial with
  | false =>
    obtain ⟨mode, hmode, hread⟩ := readFields_unquoted [] fields p rest h (.inl rfl)
    rw [List.append_nil] at hread
    exact ⟨mode, hmode.imp_right .inl, hread⟩
  | true =>
    refine ⟨.closing, .inr (.inr rfl), ?_⟩
    have hopen : readFields .start [] fields p (quote :: (bs.flatMap double ++ [quote]) ++ rest) =
        readFields .quoted [] fields (p.next quote) (bs.flatMap double ++ quote :: rest) := by
      simp [quote, comma, isLineEnd, lineFeed, carriageReturn]
    have hclose (p : Place) : readFields .quoted bs.reverse fields p (quote :: rest) =
        readFields .closing bs.reverse fields (p.next quote) rest := by
      simp
    rw [if_pos rfl, hopen, readFields_quoted, List.append_nil, hclose]
    simp only [Place.after, List.foldl_cons, List.foldl_append, List.foldl_nil]

theorem readFields_comma {mode : Mode} (hmode : mode = .start ∨ mode = .plain ∨ mode = .closing) :
    readFields mode field fields p (comma :: rest) =
      readFields .start [] (field.reverse :: fields) (p.next comma) rest := by
  rcases hmode with rfl | rfl | rfl <;> simp

theorem readFields_lineFeed {mode : Mode}
    (hmode : mode = .start ∨ mode = .plain ∨ mode = .closing) :
    readFields mode field fields p (lineFeed :: rest) =
      ⟨(field.reverse :: fields).reverse, rest, p.next lineFeed⟩ := by
  rcases hmode with rfl | rfl | rfl <;>
    simp [isLineEnd, lineFeed, comma]

end

theorem readFields_line {bs : List UInt8} {more : List (List UInt8)} (fields : List (List UInt8))
    (p : Place) (rest : List UInt8) :
    ∃ place, readFields .start [] fields p
        ([comma].intercalate ((bs :: more).map fieldBytes) ++ lineFeed :: rest) =
      ⟨fields.reverse ++ bs :: more, rest, place⟩ := by
  induction more generalizing bs fields p with
  | nil =>
    obtain ⟨mode, hmode, hread⟩ := readFields_fieldBytes fields p (lineFeed :: rest) bs
    exists (p.after (fieldBytes bs)).next lineFeed
    rw [List.map_singleton, List.intercalate_singleton, hread, readFields_lineFeed _ _ _ _ hmode,
      List.reverse_cons, List.reverse_reverse]
  | cons next more ih =>
    obtain ⟨mode, hmode, hread⟩ := readFields_fieldBytes fields p
      (comma :: ([comma].intercalate ((next :: more).map fieldBytes) ++ lineFeed :: rest)) bs
    obtain ⟨place, hrest⟩ := @ih next (bs :: fields) ((p.after (fieldBytes bs)).next comma)
    exists place
    rw [readFields_comma _ _ _ _ hmode, List.reverse_reverse, hrest, List.reverse_cons,
      List.append_assoc] at hread
    rw [List.map_cons, List.map_cons, List.intercalate_cons_cons, List.append_assoc,
      List.append_assoc]
    exact hread

theorem eq_nil_of_line_isEmpty {bs : List UInt8} {more : List (List UInt8)}
    (h : ([comma].intercalate ((bs :: more).map fieldBytes)).isEmpty = true) :
    bs = [] ∧ more = [] := by
  rw [List.isEmpty_iff] at h
  cases more with
  | nil =>
    rw [List.map_singleton, List.intercalate_singleton] at h
    unfold fieldBytes at h
    split at h
    · cases h
    · exact ⟨h, rfl⟩
  | cons next more => simp at h

theorem readFields_recordBytes {fields : List (List UInt8)} (hne : fields ≠ []) (p : Place)
    (rest : List UInt8) :
    ∃ place, readFields .start [] [] p (recordBytes fields ++ rest) = ⟨fields, rest, place⟩ := by
  cases fields with
  | nil => exact absurd rfl hne
  | cons bs more =>
    unfold recordBytes
    dsimp only
    rw [List.append_assoc, List.singleton_append]
    split
    · next hempty =>
      obtain ⟨rfl, rfl⟩ := eq_nil_of_line_isEmpty hempty
      refine ⟨(((p.next quote).next quote).next lineFeed), ?_⟩
      simp [readFields, quote, comma, isLineEnd, lineFeed, carriageReturn]
    · exact readFields_line [] p rest

section

variable {P : UInt8 → Prop} (hquote : P quote)
include hquote

theorem head_fieldBytes {bs : List UInt8} (h : ∀ b ∈ bs.head?, isSpecial b = false → P b) :
    ∀ b ∈ (fieldBytes bs).head?, P b := by
  unfold fieldBytes
  split
  · rintro _ ⟨⟩
    exact hquote
  · next hnone =>
    intro b hb
    apply h b hb
    rw [Bool.eq_false_iff]
    exact fun hspecial => hnone (List.any_eq_true.mpr ⟨b, List.mem_of_mem_head? hb, hspecial⟩)

/-- What is written for a record starts with the first byte of its first field, or with a quote or a
comma. -/
theorem recordBytes_eq_cons (hcomma : P comma) {fields : List (List UInt8)}
    (h : ∀ bs ∈ fields.head?, ∀ b ∈ bs.head?, isSpecial b = false → P b) :
    ∃ b bs, recordBytes fields = b :: bs ∧ P b := by
  have hline : ∀ b ∈ ([comma].intercalate (fields.map fieldBytes)).head?, P b := by
    cases fields with
    | nil => rintro _ ⟨⟩
    | cons bs more =>
      have hhead := head_fieldBytes hquote (h bs rfl)
      cases more with
      | nil => rwa [List.map_singleton, List.intercalate_singleton]
      | cons next more =>
        rw [List.map_cons, List.map_cons, List.intercalate_cons_cons]
        cases hbs : fieldBytes bs with
        | nil =>
          rintro _ ⟨⟩
          exact hcomma
        | cons b bs' =>
          rw [hbs] at hhead
          exact hhead
  unfold recordBytes
  dsimp only
  cases hbytes : [comma].intercalate (fields.map fieldBytes) with
  | nil => exact ⟨quote, _, rfl, hquote⟩
  | cons b bs =>
    rw [hbytes] at hline
    exact ⟨b, _, rfl, hline b rfl⟩

end

/-- What is written for a record starts with no line end. -/
theorem recordBytes_starts (fields : List (List UInt8)) :
    ∃ b bs, recordBytes fields = b :: bs ∧ isLineEnd b = false := by
  apply recordBytes_eq_cons (by decide) (by decide)
  intro _ _ b _ hspecial
  exact (Bool.or_eq_false_iff.mp hspecial).2

theorem length_le_flatMap_recordBytes (records : List (List (List UInt8))) :
    records.length ≤ (records.flatMap recordBytes).length := by
  induction records with
  | nil => exact Nat.zero_le _
  | cons fields records ih =>
    obtain ⟨b, bs, hrecord, -⟩ := recordBytes_starts fields
    rw [List.flatMap_cons, List.length_append, hrecord, List.length_cons, List.length_cons]
    omega

theorem map_readRecords {records : List (List (List UInt8))} (hne : ∀ fields ∈ records, fields ≠ [])
    {bound : Nat} (hb : records.length < bound) (p : Place) :
    (readRecords bound p (records.flatMap recordBytes)).map (·.2) = records := by
  induction records generalizing bound p with
  | nil => cases bound <;> rfl
  | cons fields records ih =>
    rw [List.forall_mem_cons] at hne
    cases bound with
    | zero => cases hb
    | succ bound =>
      -- No line end of the record goes with the blank lines that are skipped before it.
      obtain ⟨b, bs, hrecord, hend⟩ := recordBytes_starts fields
      have hspace : (recordBytes fields ++ records.flatMap recordBytes).dropWhile isLineEnd =
          recordBytes fields ++ records.flatMap recordBytes := by
        rw [hrecord]
        exact List.dropWhile_cons_of_neg (by simp [hend])
      obtain ⟨place, hread⟩ := readFields_recordBytes hne.1 (Place.after p
        ((recordBytes fields ++ records.flatMap recordBytes).takeWhile isLineEnd))
        (records.flatMap recordBytes)
      rw [List.flatMap_cons, readRecords, hspace]
      rw [hrecord] at hread ⊢
      unfold Place.after at hread
      rw [List.cons_append] at hread ⊢
      dsimp only
      rw [hread, List.map_cons, ih hne.2 (Nat.lt_of_succ_lt_succ hb)]

theorem decodeFields_textBytes (place : Place) (i : Nat) (fields : List String) :
    decodeFields place i (fields.map textBytes) = .ok fields := by
  induction fields generalizing i with
  | nil => rfl
  | cons s fields ih =>
    have hs : Text.decode (textBytes s) = .ok s := by
      rw [Text.decode, textBytes, Text.decodeFrom_flatMap]
      exact congrArg Except.ok String.ofList_toList
    rw [List.map_cons, decodeFields, hs, ih]
    rfl

theorem mapM_checkRecord {expected : Nat} {records : List (List String)}
    {found : List (Place × List (List UInt8))}
    (hfound : found.map (·.2) = records.map (·.map textBytes))
    (hlen : ∀ fields ∈ records, fields.length = expected) :
    found.mapM (checkRecord expected) = .ok records := by
  induction records generalizing found with
  | nil =>
    rw [List.map_nil, List.map_eq_nil_iff] at hfound
    rw [hfound]
    rfl
  | cons fields records ih =>
    cases found with
    | nil => cases hfound
    | cons first found =>
      obtain ⟨place, bytes⟩ := first
      obtain ⟨rfl, htail⟩ := List.cons.inj hfound
      rw [List.forall_mem_cons] at hlen
      have hcheck : checkRecord expected (place, fields.map textBytes) = .ok fields := by
        unfold checkRecord
        dsimp only
        rw [List.length_map, if_pos hlen.1, decodeFields_textBytes]
      rw [List.mapM_cons]
      dsimp only
      rw [hcheck, ih htail hlen.2]
      rfl

theorem dropMark_of_ne {bytes : List UInt8} (h : ∀ b ∈ bytes.head?, b ≠ 0xEF) :
    dropMark bytes = (bytes, 0) := by
  unfold dropMark
  split
  · exact absurd rfl (h 0xEF rfl)
  · rfl

/-- A header and records that are all as long are read as they were written, unless the header
starts as a byte order mark does. -/
theorem read_write {header : List String} {records : List (List String)} (hne : header ≠ [])
    (hlen : ∀ fields ∈ records, fields.length = header.length)
    (hmark : ∀ s ∈ header.head?, ∀ b ∈ (textBytes s).head?, b ≠ 0xEF) :
    read (textBytes (write (header :: records))) = .ok (header, records) := by
  have hfields : ∀ fields ∈ (header :: records).map (·.map textBytes), fields ≠ [] := by
    intro fields hfields
    obtain ⟨texts, htexts, rfl⟩ := List.mem_map.mp hfields
    have hlength : texts.length = header.length := by
      rcases List.mem_cons.mp htexts with rfl | htexts
      · rfl
      · exact hlen texts htexts
    have hpos := List.length_pos_iff.mpr hne
    rw [ne_eq, List.map_eq_nil_iff, ← List.length_eq_zero_iff, hlength]
    omega
  have hbound : ((header :: records).map (·.map textBytes)).length <
      (textBytes (write (header :: records))).length + 1 := by
    rw [textBytes_write]
    exact Nat.lt_succ_of_le (length_le_flatMap_recordBytes _)
  have hstarts : ∀ b ∈ (textBytes (write (header :: records))).head?, b ≠ 0xEF := by
    obtain ⟨b, bs, hrecord, hb⟩ :
        ∃ b bs, recordBytes (header.map textBytes) = b :: bs ∧ b ≠ 0xEF := by
      apply recordBytes_eq_cons (by decide) (by decide)
      intro bs hbs b hb _
      rw [List.head?_map] at hbs
      obtain ⟨s, hs, rfl⟩ := Option.map_eq_some_iff.mp hbs
      exact hmark s hs b hb
    rw [textBytes_write, List.map_cons, List.flatMap_cons, hrecord]
    rintro _ ⟨⟩
    exact hb
  -- The header is the first record that is read, and the places of records do not matter.
  have hread := map_readRecords hfields hbound ⟨0, 1, 0⟩
  rw [← textBytes_write] at hread
  unfold read
  rw [dropMark_of_ne hstarts]
  dsimp only
  generalize readRecords _ _ _ = found at hread
  cases found with
  | nil => cases hread
  | cons first found =>
    obtain ⟨place, bytes⟩ := first
    obtain ⟨rfl, htail⟩ := List.cons.inj hread
    dsimp only
    rw [decodeFields_textBytes, List.length_map, mapM_checkRecord htail hlen]
    rfl

end StepLang.Csv
