import Mathlib.Data.List.Infix
import StepLang.Proofs.Text.Utf8

/-! # Searching among bytes

The bytes of a text occur among those of another one only where the text itself occurs: no character
starts with a byte that continues one. So a search among bytes ends at the start of a character.
-/

namespace StepLang.Text

def encode (cs : List Char) : List UInt8 :=
  cs.flatMap String.utf8EncodeChar

theorem encode_cons (c : Char) (cs : List Char) :
    encode (c :: cs) = String.utf8EncodeChar c ++ encode cs :=
  List.flatMap_cons

theorem encode_append (cs ds : List Char) : encode (cs ++ ds) = encode cs ++ encode ds :=
  List.flatMap_append

/-- The first byte of a character continues none, and its other bytes do. -/
theorem exists_encodeChar (c : Char) : ∃ b bs, String.utf8EncodeChar c = b :: bs ∧
    isTrail b = false ∧ ∀ a ∈ bs, isTrail a = true := by
  have hval : c.val.toNat = c.toNat := rfl
  have hlt : c.toNat < 0x110000 := by
    rcases c.valid with h | h <;> omega
  have hlead (n : Nat) (hn : n < 0x80 ∨ 0xc0 ≤ n ∧ n < 0x100) :
      isTrail (UInt8.ofNat n) = false := by
    rw [isTrail, toNat_ofNat_of_lt (by omega), beq_eq_false_iff_ne]
    omega
  have htrail (n : Nat) := (trail_ofNat n).1
  have hnone : ∀ a ∈ ([] : List UInt8), isTrail a = true := List.forall_mem_nil _
  fun_cases String.utf8EncodeChar c with
  | case1 n h => exact ⟨_, _, rfl, hlead _ (by omega), hnone⟩
  | case2 n h h' =>
    exact ⟨_, _, rfl, hlead _ (by omega), List.forall_mem_cons.mpr ⟨htrail _, hnone⟩⟩
  | case3 n h h' h'' =>
    exact ⟨_, _, rfl, hlead _ (by omega),
      List.forall_mem_cons.mpr ⟨htrail _, List.forall_mem_cons.mpr ⟨htrail _, hnone⟩⟩⟩
  | case4 n h h' h'' =>
    exact ⟨_, _, rfl, hlead _ (by omega), List.forall_mem_cons.mpr ⟨htrail _,
      List.forall_mem_cons.mpr ⟨htrail _, List.forall_mem_cons.mpr ⟨htrail _, hnone⟩⟩⟩⟩

section Occurrences

variable {excerpt cs : List Char} {i k : Nat}

theorem prefix_of_encode (h : encode excerpt <+: encode cs) : excerpt <+: cs := by
  induction excerpt generalizing cs with
  | nil => exact List.nil_prefix
  | cons a excerpt ih =>
    cases cs with
    | nil =>
      obtain ⟨b, bs, hb, -⟩ := exists_encodeChar a
      rw [encode_cons, hb] at h
      cases List.prefix_nil.mp h
    | cons c cs =>
      obtain ⟨rest, hrest⟩ := h
      rw [encode_cons, encode_cons, List.append_assoc] at hrest
      -- both sides decode, and the first character of either is the one that is decoded first
      have hdecode := congrArg (decodeFrom 0) hrest
      rw [decodeFrom_encodeChar, decodeFrom_encodeChar, encode, encode,
        decodeFrom_flatMap] at hdecode
      obtain rfl : a = c := by
        cases hleft : decodeFrom (0 + (String.utf8EncodeChar a).length)
            (excerpt.flatMap String.utf8EncodeChar ++ rest) with
        | error n =>
          rw [hleft] at hdecode
          cases hdecode
        | ok ds =>
          rw [hleft] at hdecode
          exact List.head_eq_of_cons_eq (Except.ok.inj hdecode)
      exact (List.cons_prefix_cons.mpr ⟨rfl, ih ⟨rest, List.append_cancel_left hrest⟩⟩)

/-- Bytes of a text that occur among those of another one start with a character of it. -/
theorem exists_of_prefix_drop (hne : excerpt ≠ [])
    (h : encode excerpt <+: (encode cs).drop k) :
    ∃ i, i ≤ cs.length ∧ k = (encode (cs.take i)).length ∧ excerpt <+: cs.drop i := by
  obtain ⟨a, as, rfl⟩ := List.exists_cons_of_ne_nil hne
  obtain ⟨b, bs, hfirst, hlead, -⟩ := exists_encodeChar a
  induction cs generalizing k with
  | nil =>
    have hempty : encode [] = [] := rfl
    rw [encode_cons, hfirst, hempty, List.drop_nil] at h
    cases List.prefix_nil.mp h
  | cons c cs ih =>
    obtain ⟨b', bs', hchar, -, htrail⟩ := exists_encodeChar c
    rcases Nat.eq_zero_or_pos k with rfl | hk
    · exact ⟨0, Nat.zero_le _, rfl, prefix_of_encode h⟩
    rcases lt_or_ge k (String.utf8EncodeChar c).length with hinside | hbeyond
    · -- inside a character there are only bytes that continue it
      exfalso
      obtain ⟨j, rfl⟩ := Nat.exists_eq_succ_of_ne_zero hk.ne'
      rw [hchar] at hinside
      have hj : j < bs'.length := Nat.lt_of_succ_lt_succ hinside
      rw [encode_cons, encode_cons, hchar, hfirst, List.cons_append, List.cons_append,
        List.drop_succ_cons, List.drop_append_of_le_length hj.le,
        List.drop_eq_getElem_cons hj] at h
      obtain ⟨rfl, -⟩ := List.cons_prefix_cons.mp h
      have hcontinues := htrail _ (List.getElem_mem hj)
      rw [hlead] at hcontinues
      cases hcontinues
    · obtain ⟨j, rfl⟩ := Nat.exists_eq_add_of_le hbeyond
      rw [encode_cons c, List.drop_length_add_append] at h
      obtain ⟨i, hi, rfl, hat⟩ := ih h
      refine ⟨i + 1, Nat.succ_le_succ hi, ?_, hat⟩
      rw [List.take_succ_cons, encode_cons, List.length_append]

theorem encode_split (cs : List Char) (i : Nat) :
    encode cs = encode (cs.take i) ++ encode (cs.drop i) := by
  rw [← encode_append, List.take_append_drop]

theorem prefix_drop_encode (h : excerpt <+: cs.drop i) :
    encode excerpt <+: (encode cs).drop (encode (cs.take i)).length := by
  obtain ⟨rest, hrest⟩ := h
  rw [encode_split cs i, List.drop_left, ← hrest, encode_append]
  exact List.prefix_append _ _

theorem length_encode_take_le {j : Nat} (h : i ≤ j) :
    (encode (cs.take i)).length ≤ (encode (cs.take j)).length := by
  rw [encode_split (cs.take j) i, List.take_take, min_eq_left h, List.length_append]
  exact Nat.le_add_right _ _

end Occurrences

/-! ### The search -/

/-- The offset of the first occurrence of bytes among others. -/
def find? (excerpt bytes : List UInt8) : Option Nat :=
  bytes.tails.findIdx? (excerpt.isPrefixOf ·)

theorem find?_eq_some_iff {excerpt bytes : List UInt8} {k : Nat} :
    find? excerpt bytes = some k ↔ k ≤ bytes.length ∧ excerpt <+: bytes.drop k ∧
      ∀ j < k, ¬ excerpt <+: bytes.drop j := by
  rw [find?, List.findIdx?_eq_some_iff_getElem]
  simp only [List.getElem_tails, List.isPrefixOf_iff_prefix, List.length_tails, Nat.lt_succ_iff,
    exists_prop]

theorem find?_eq_none_iff {excerpt bytes : List UInt8} :
    find? excerpt bytes = none ↔ ∀ k, ¬ excerpt <+: bytes.drop k := by
  rw [find?, List.findIdx?_eq_none_iff]
  constructor
  · intro h k hat
    have hno := h _ ((List.mem_tails _ _).mpr (List.drop_suffix k bytes))
    rw [List.isPrefixOf_iff_prefix.mpr hat] at hno
    cases hno
  · intro h rest hrest
    rw [List.suffix_iff_eq_drop.mp ((List.mem_tails _ _).mp hrest), Bool.eq_false_iff, ne_eq,
      List.isPrefixOf_iff_prefix]
    exact h _

/-- The characters before the place where a search among bytes ends are whole. -/
theorem decode_take_encode (cs : List Char) (i : Nat) :
    decode ((encode cs).take (encode (cs.take i)).length) = .ok (String.ofList (cs.take i)) := by
  rw [encode_split cs i, List.take_left, decode, encode, decodeFrom_flatMap]
  rfl

end StepLang.Text
