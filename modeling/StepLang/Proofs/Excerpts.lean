import StepLang.Function
import StepLang.Proofs.Summary
import StepLang.Proofs.WholeCounts

/-! # Excerpts of texts

A position in a text counts its characters from one. The position at which a text first occurs in
another one is the first from which the excerpt of its length is that text.
-/

namespace StepLang.Function

/-! ### Occurrences -/

section Occurrences

variable {excerpt cs : List Char} {n k : Nat}

theorem exists_of_occurrence? (h : occurrence? excerpt cs n = some k) :
    ∃ i, k = n + i ∧ excerpt <+: cs.drop i ∧
      ∀ j, excerpt <+: cs.drop j → i ≤ j := by
  induction cs generalizing n with
  | nil =>
    obtain ⟨hempty, rfl⟩ : excerpt.isEmpty = true ∧ n = k := by simpa [occurrence?] using h
    obtain rfl := List.isEmpty_iff.mp hempty
    exact ⟨0, rfl, List.nil_prefix, fun j _ => Nat.zero_le j⟩
  | cons c cs ih =>
    rw [occurrence?] at h
    split at h
    · rename_i hpre
      obtain rfl := Option.some.inj h
      exact ⟨0, rfl, List.isPrefixOf_iff_prefix.mp hpre, fun j _ => Nat.zero_le j⟩
    · rename_i hpre
      obtain ⟨i, rfl, hat, hleast⟩ := ih h
      refine ⟨i + 1, by omega, hat, fun j hj => ?_⟩
      cases j with
      | zero => exact absurd (List.isPrefixOf_iff_prefix.mpr hj) hpre
      | succ j => exact Nat.succ_le_succ (hleast j hj)

theorem not_prefix_of_occurrence? (h : occurrence? excerpt cs n = none) (i : Nat) :
    ¬ excerpt <+: cs.drop i := by
  induction cs generalizing n i with
  | nil =>
    have hne : excerpt ≠ [] := by
      rintro rfl
      cases h
    rw [List.drop_nil, List.prefix_nil]
    exact hne
  | cons c cs ih =>
    rw [occurrence?] at h
    split at h
    · cases h
    · rename_i hpre
      cases i with
      | zero => exact fun hat => hpre (List.isPrefixOf_iff_prefix.mpr hat)
      | succ i => exact ih h i

theorem infix_iff_exists_drop : excerpt <:+: cs ↔ ∃ i, excerpt <+: cs.drop i := by
  constructor
  · rintro ⟨before, after, rfl⟩
    exact ⟨before.length, after, by simp⟩
  · rintro ⟨i, hat⟩
    exact hat.isInfix.trans (List.drop_suffix i cs).isInfix

end Occurrences

/-- The position is zero for the empty excerpt and for one that does not occur, and otherwise that
of the first occurrence. -/
theorem index_spec (s t : String) :
    (index s t = 0 ∧ (t = "" ∨ ¬ t.toList <:+: s.toList)) ∨
      ∃ i, index s t = i + 1 ∧ t ≠ "" ∧ t.toList <+: s.toList.drop i ∧
        ∀ j, t.toList <+: s.toList.drop j → i ≤ j := by
  unfold index
  split
  · rename_i hempty
    exact .inl ⟨rfl, .inl (String.isEmpty_iff.mp hempty)⟩
  · rename_i hempty
    cases hfirst : occurrence? t.toList s.toList 1 with
    | none =>
      refine .inl ⟨rfl, .inr fun hin => ?_⟩
      obtain ⟨i, hat⟩ := infix_iff_exists_drop.mp hin
      exact not_prefix_of_occurrence? hfirst i hat
    | some k =>
      obtain ⟨i, rfl, hat, hleast⟩ := exists_of_occurrence? hfirst
      exact .inr ⟨i, Nat.add_comm 1 i, fun h => hempty (String.isEmpty_iff.mpr h), hat, hleast⟩

/-! ### Excerpts -/

/-- The text `r` stands in `s` at a position: no longer than the length, and shorter only where `s`
ends. Of position and length the whole parts count. -/
def IsExcerpt (s : String) (position length : Float) (r : String) : Prop :=
  ∃ before after, s = before ++ r ++ after ∧ (before.length + 1 : Nat) = wholeCount position ∧
    r.length ≤ wholeCount length ∧ (after = "" ∨ r.length = wholeCount length)

/-- There is nothing at the position: it is missing, below one or past the end; or nothing is asked
for, since the length is missing or below one. -/
def NoExcerpt (s : String) (position length : Float) : Prop :=
  position.isNaN = true ∨ position < 1.0 ∨ s.length < wholeCount position ∨
    length.isNaN = true ∨ length < 1.0

section Excerpts

variable {s : String} {position length : Float}

theorem not_noExcerpt_iff : ¬ NoExcerpt s position length ↔
    1.0 ≤ position ∧ wholeCount position ≤ s.length ∧ 1.0 ≤ length := by
  have hposition := isNaN_or_lt_iff (x := position) denotes_one.isNaN
  have hlength := isNaN_or_lt_iff (x := length) denotes_one.isNaN
  rw [NoExcerpt, ← or_assoc, hposition, hlength, not_or, not_or, not_not, not_not, not_lt]

theorem substring_of_noExcerpt (hs : s.length < 2 ^ 53) (h : NoExcerpt s position length) :
    substring s position (some length) = "" := by
  simp only [NoExcerpt, ← lt_toCount_iff (hs.trans (by decide))] at h
  simp only [substring, Bool.or_eq_true, decide_eq_true_eq, String.length_toList]
  grind

theorem substring_of_not_noExcerpt (hs : s.length < 2 ^ 53) (h : ¬ NoExcerpt s position length) :
    substring s position (some length) = String.ofList
      ((s.toList.drop (Number.toCount position - 1)).take (Number.toCount length)) := by
  simp only [NoExcerpt, ← lt_toCount_iff (hs.trans (by decide))] at h
  simp only [substring, Bool.or_eq_true, decide_eq_true_eq, String.length_toList]
  grind

theorem isExcerpt_substring (hs : s.length < 2 ^ 53) (h : ¬ NoExcerpt s position length) :
    IsExcerpt s position length (substring s position (some length)) := by
  have hcap : s.length < 0xffffffffffffffff := hs.trans (by decide)
  rw [substring_of_not_noExcerpt hs h]
  obtain ⟨hone, hle, -⟩ := not_noExcerpt_iff.mp h
  have hstart : wholeCount position = Number.toCount position :=
    wholeCount_eq_toCount hcap (Nat.cast_le.mp ((toCount_le position).trans hle))
  have hpos : 1 ≤ Number.toCount position := by
    rwa [denotes_one.le_iff_wholeCount Nat.one_pos, hstart, Nat.cast_le] at hone
  have hend : Number.toCount position ≤ s.length := by rwa [hstart, Nat.cast_le] at hle
  generalize hrest : s.toList.drop (Number.toCount position - 1) = rest
  refine ⟨String.ofList (s.toList.take (Number.toCount position - 1)),
    String.ofList (rest.drop (Number.toCount length)), ?_, ?_, ?_, ?_⟩
  · rw [String.append_assoc, ← String.ofList_append, List.take_append_drop, ← hrest,
      ← String.ofList_append, List.take_append_drop, String.ofList_toList]
  · rw [hstart, String.length_ofList, List.length_take, String.length_toList, Nat.cast_inj]
    omega
  · refine le_trans ?_ (toCount_le length)
    rw [String.length_ofList, Nat.cast_le]
    exact List.length_take_le _ _
  · rcases le_or_gt rest.length (Number.toCount length) with hlong | hshort
    · exact .inl (by rw [List.drop_eq_nil_of_le hlong])
    · have hrestlen : rest.length ≤ s.length := by
        rw [← hrest, List.length_drop, String.length_toList]
        exact Nat.sub_le _ _
      refine .inr ?_
      rw [wholeCount_eq_toCount hcap (hshort.le.trans hrestlen), String.length_ofList,
        List.length_take_of_le hshort.le]

end Excerpts

/-! ### Positions and excerpts -/

section Positions

variable {s t : String} {i : Nat}

theorem drop_length_append (before rest : String) :
    (before ++ rest).toList.drop before.length = rest.toList := by
  rw [String.toList_append, ← String.length_toList, List.drop_left]

theorem add_length_le_of_isPrefix (ht : t ≠ "") (h : t.toList <+: s.toList.drop i) :
    0 < t.length ∧ i + t.length ≤ s.length := by
  have hpos : 0 < t.length := Nat.pos_of_ne_zero (mt String.length_eq_zero_iff.mp ht)
  have hle := h.length_le
  rw [List.length_drop, String.length_toList, String.length_toList] at hle
  omega

theorem substring_of_isPrefix (hs : s.length < 2 ^ 53) (ht : t ≠ "")
    (h : t.toList <+: s.toList.drop i) :
    substring s (Float.ofNat (i + 1)) (some (Float.ofNat t.length)) = t := by
  obtain ⟨hpos, hend⟩ := add_length_le_of_isPrefix ht h
  have hposition := denotes_ofNat (n := i + 1) (by omega)
  have hlength := denotes_ofNat (n := t.length) (by omega)
  have hthere : ¬ NoExcerpt s (Float.ofNat (i + 1)) (Float.ofNat t.length) := by
    rw [not_noExcerpt_iff, denotes_one.le_iff hposition, denotes_one.le_iff hlength,
      hposition.wholeCount, Nat.cast_le]
    omega
  obtain ⟨before, after, hsplit, hbefore, hle, hrest⟩ := isExcerpt_substring hs hthere
  generalize substring s (Float.ofNat (i + 1)) (some (Float.ofNat t.length)) = r
    at hsplit hle hrest ⊢
  rw [hposition.wholeCount, Nat.cast_inj] at hbefore
  rw [hlength.wholeCount, Nat.cast_le] at hle
  rw [hlength.wholeCount, Nat.cast_inj] at hrest
  obtain rfl : before.length = i := Nat.succ.inj hbefore
  rw [hsplit, String.append_assoc, drop_length_append, String.toList_append] at h
  have hlong : t.toList.length ≤ r.toList.length := by
    rcases hrest with rfl | heq
    · rw [String.toList_empty, List.append_nil] at h
      exact h.length_le
    · rw [String.length_toList, String.length_toList, heq]
  have hpre : t.toList <+: r.toList :=
    List.prefix_of_prefix_length_le h (List.prefix_append _ _) hlong
  rw [← String.length_toList, ← String.length_toList] at hle
  exact (String.toList_inj.mp (hpre.eq_of_length (hlong.antisymm hle))).symm

/-- An excerpt of a text's length that is the text is one of its occurrences. -/
theorem prefix_of_substring {p l : Float} (hs : s.length < 2 ^ 53) (ht : t ≠ "")
    (h : substring s p (some l) = t) :
    ∃ j, wholeCount p = (j + 1 : Nat) ∧ t.toList <+: s.toList.drop j := by
  have hthere : ¬ NoExcerpt s p l := fun hnone => ht (h ▸ substring_of_noExcerpt hs hnone)
  obtain ⟨before, after, hsplit, hbefore, -, -⟩ := isExcerpt_substring hs hthere
  refine ⟨before.length, hbefore.symm, ?_⟩
  rw [hsplit, h, String.append_assoc, drop_length_append, String.toList_append]
  exact List.prefix_append _ _

end Positions

/-- The position of a text in another one is zero if the text is empty or does not occur, and
otherwise the least one from which the excerpt of its length is the text. Any excerpt is made of the
characters from the whole part of its position on, up to the whole part of its length and the end of
the text. -/
theorem index_agrees_with_substr (today : Int) {s : String} (hs : s.length < 2 ^ 53) (t : String) :
    (∃ n : Nat, call today "INDEX" [.text s, .text t] = .ok (.ofNat n) ∧ Denotes (Float.ofNat n) n ∧
      (n = 0 ↔ t = "" ∨ ¬ t.toList <:+: s.toList) ∧
      (n ≠ 0 → IsLeast {p : Float | 1.0 ≤ p ∧
        call today "SUBSTR" [.text s, .number p, .ofNat t.length] = .ok (.text t)}
          (Float.ofNat n))) ∧
    ∀ p l : Float, ∃ r, call today "SUBSTR" [.text s, .number p, .number l] = .ok (.text r) ∧
      (NoExcerpt s p l → r = "") ∧ (¬ NoExcerpt s p l → IsExcerpt s p l r) := by
  have hindex : call today "INDEX" [.text s, .text t] = .ok (.ofNat (index s t)) :=
    call_name today (f := .INDEX) rfl
  have hsubstr (p l : Float) : call today "SUBSTR" [.text s, .number p, .number l] =
      .ok (.text (substring s p (some l))) :=
    call_name today (f := .SUBSTR) rfl
  have hexcerpt (p : Float) :
      call today "SUBSTR" [.text s, .number p, .ofNat t.length] = .ok (.text t) ↔
        substring s p (some (Float.ofNat t.length)) = t := by
    rw [Value.ofNat, hsubstr, Except.ok.injEq, Value.text.injEq]
  refine ⟨⟨_, hindex, ?_⟩, fun p l => ⟨_, hsubstr p l, substring_of_noExcerpt hs,
    isExcerpt_substring hs⟩⟩
  rcases index_spec s t with ⟨hzero, hnone⟩ | ⟨i, hi, ht, hat, hleast⟩
  · rw [hzero]
    exact ⟨denotes_ofNat (by decide), iff_of_true rfl hnone, fun h => absurd rfl h⟩
  · obtain ⟨hpos, hend⟩ := add_length_le_of_isPrefix ht hat
    have hposition := denotes_ofNat (n := i + 1) (by omega)
    have hoccurs : t.toList <:+: s.toList := infix_iff_exists_drop.mpr ⟨i, hat⟩
    rw [hi]
    refine ⟨hposition, iff_of_false i.succ_ne_zero ?_, fun _ => ⟨⟨?_, ?_⟩, ?_⟩⟩
    · rintro (rfl | hnone)
      · exact ht rfl
      · exact hnone hoccurs
    · rw [denotes_one.le_iff hposition]
      omega
    · exact (hexcerpt _).mpr (substring_of_isPrefix hs ht hat)
    · rintro p ⟨-, hp⟩
      obtain ⟨j, hj, hat⟩ := prefix_of_substring hs ht ((hexcerpt p).mp hp)
      rw [hposition.le_iff_wholeCount i.succ_pos, hj, Nat.cast_le]
      exact Nat.succ_le_succ (hleast j hat)

/-- The first of two occurrences that overlap, behind characters of several bytes, and an excerpt up
to the end. -/
theorem index_agrees_with_substr_overlapping : "→aéaéaéb".length < 2 ^ 53 ∧
    IsLeast {p : Float | 1.0 ≤ p ∧
      call 0 "SUBSTR" [.text "→aéaéaéb", .number p, .number 3.0] = .ok (.text "éaé")} 3.0 ∧
    NoExcerpt "→aéaéaéb" 9.0 1.0 ∧ IsExcerpt "→aéaéaéb" 7.5 (1.0 / 0.0) "éb" := by
  have hs : "→aéaéaéb".length < 2 ^ 53 := by decide
  obtain ⟨⟨n, hindex, -, hzero, hleast⟩, hsubstr⟩ := index_agrees_with_substr 0 hs "éaé"
  have hcall : call 0 "INDEX" [.text "→aéaéaéb", .text "éaé"] = .ok (.number 3.0) :=
    (call_name 0 (f := .INDEX) rfl).trans (by decide +kernel)
  have hthree : Float.ofNat n = 3.0 :=
    Value.number.inj (Except.ok.inj (hindex.symm.trans hcall))
  have hpositive : n ≠ 0 := by
    rw [ne_eq, hzero]
    decide
  have hlength : Value.ofNat "éaé".length = .number 3.0 := by decide +kernel
  have hpast : NoExcerpt "→aéaéaéb" 9.0 1.0 := by
    refine .inr (.inr (.inl ?_))
    rw [← lt_toCount_iff (by decide)]
    decide +kernel
  have hwithin : ¬ NoExcerpt "→aéaéaéb" 7.5 (1.0 / 0.0) := by
    rw [not_noExcerpt_iff, wholeCount_eq_toCount (n := 8) (by decide) (by decide +kernel),
      Nat.cast_le]
    decide +kernel
  obtain ⟨r, hr, -, hexcerpt⟩ := hsubstr 7.5 (1.0 / 0.0)
  have hrest : call 0 "SUBSTR" [.text "→aéaéaéb", .number 7.5, .number (1.0 / 0.0)] =
      .ok (.text "éb") :=
    (call_name 0 (f := .SUBSTR) rfl).trans (by decide +kernel)
  obtain rfl : r = "éb" := Value.text.inj (Except.ok.inj (hr.symm.trans hrest))
  rw [hlength, hthree] at hleast
  exact ⟨hs, hleast hpositive, hpast, hexcerpt hwithin⟩

end StepLang.Function
