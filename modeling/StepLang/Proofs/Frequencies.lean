import Mathlib.Data.List.Forall2
import Mathlib.Data.List.TakeWhile
import StepLang.Dataset.Frequency
import StepLang.Proofs.Comparison

/-! # Frequencies of values

Counting a value raises one count by one, so every row is counted once, and listed values differ.
Values are counted with the first one listed that they equal. This is a matter of the order of the
rows where equality within the tolerance does not carry over from one value to the next; where
different numbers are at least the tolerance apart, equality is that of the order, and each value is
counted with all values that equal it.
-/

namespace StepLang

/-! ### Missing values -/

theorem Text.trimEnd_eq_empty_iff {s : String} : trimEnd s = "" ↔ s.toList.all isBlank = true := by
  rw [trimEnd, ← String.toList_inj, String.toList_ofList]
  simp only [String.toList_empty, List.reverse_eq_nil_iff, List.dropWhile_eq_nil_iff,
    List.mem_reverse, List.all_eq_true]

namespace Value

theorem isMissing_eq_of_same {v w : Value} (h : v.same w = true) : v.isMissing = w.isMissing := by
  rw [same_iff] at h
  cases v with
  | number x =>
    cases w with
    | number y =>
      change x.isNaN = y.isNaN
      have hxy : compareNumbers x y = .eq := Option.some.inj h
      cases hx : x.isNaN <;> cases hy : y.isNaN <;>
        simp only [compareNumbers, hx, hy, Bool.false_eq_true, if_true, if_false, reduceCtorEq]
          at hxy ⊢
    | text t => cases h
  | text s =>
    cases w with
    | number y => cases h
    | text t =>
      have hst : Text.trimEnd s = Text.trimEnd t :=
        Std.LawfulEqOrd.eq_of_compare (Option.some.inj h)
      change s.toList.all Text.isBlank = t.toList.all Text.isBlank
      rw [Bool.eq_iff_iff, ← Text.trimEnd_eq_empty_iff, ← Text.trimEnd_eq_empty_iff, hst]

end Value

namespace Frequencies

/-! ### Counting one value -/

/-- A value is counted with the first entry that equals it, or listed behind all entries. -/
theorem tally_cases (v : Value) (counts : List (Value × Nat)) :
    (∃ before w n after, counts = before ++ (w, n) :: after ∧ w.same v = true ∧
      (∀ entry ∈ before, entry.1.same v = false) ∧
      tally v counts = before ++ (w, n + 1) :: after) ∨
    (∀ entry ∈ counts, entry.1.same v = false) ∧ tally v counts = counts ++ [(v, 1)] := by
  induction counts with
  | nil => exact .inr ⟨by simp, rfl⟩
  | cons entry counts ih =>
    obtain ⟨w, n⟩ := entry
    cases hw : w.same v with
    | true => exact .inl ⟨[], w, n, counts, rfl, hw, by simp, if_pos hw⟩
    | false =>
      have htally : tally v ((w, n) :: counts) = (w, n) :: tally v counts :=
        if_neg (Bool.eq_false_iff.mp hw)
      rcases ih with ⟨before, w', n', after, hcounts, hw', hbefore, ht⟩ | ⟨hnone, ht⟩
      · refine .inl ⟨(w, n) :: before, w', n', after, by rw [hcounts]; rfl, hw', ?_, ?_⟩
        · exact List.forall_mem_cons.mpr ⟨hw, hbefore⟩
        · rw [htally, ht]
          rfl
      · refine .inr ⟨List.forall_mem_cons.mpr ⟨hw, hnone⟩, ?_⟩
        rw [htally, ht]
        rfl

def ofPresent (vs : List Value) : List (Value × Nat) :=
  vs.foldl (fun counts v => tally v counts) []

theorem ofPresent_append (vs : List Value) (v : Value) :
    ofPresent (vs ++ [v]) = tally v (ofPresent vs) := by
  rw [ofPresent, List.foldl_append]
  rfl

theorem foldl_add (f : Frequencies) (vs : List Value) :
    vs.foldl add f =
      { counts := (vs.filter (! ·.isMissing)).foldl (fun counts v => tally v counts) f.counts
        missing := f.missing + vs.countP Value.isMissing } := by
  induction vs generalizing f with
  | nil => rfl
  | cons v vs ih =>
    rw [List.foldl_cons, ih]
    cases hv : v.isMissing with
    | true =>
      simp only [add, hv, if_true, List.filter_cons, Bool.not_true, Bool.false_eq_true, if_false,
        List.countP_cons_of_pos hv, Nat.add_assoc, Nat.add_comm 1]
    | false =>
      have hneg : ¬ v.isMissing = true := Bool.eq_false_iff.mp hv
      simp only [add, hv, Bool.false_eq_true, if_false, List.filter_cons, Bool.not_false, if_true,
        List.countP_cons_of_neg hneg, List.foldl_cons]

/-! ### What holds of any values -/

/-- The counts list some of the values, all different, and add up to their number. -/
structure Lists (counts : List (Value × Nat)) (vs : List Value) : Prop where
  total : (counts.map (·.2)).sum = vs.length
  positive : ∀ entry ∈ counts, 1 ≤ entry.2
  distinct : counts.Pairwise fun a b => a.1.same b.1 = false
  mem : ∀ entry ∈ counts, entry.1 ∈ vs

/-- A value more keeps the listed values different, since it is listed only if it equals none of
them. -/
theorem Lists.tally {counts : List (Value × Nat)} {vs : List Value} (h : Lists counts vs)
    (v : Value) : Lists (tally v counts) (vs ++ [v]) := by
  rcases tally_cases v counts with ⟨before, w, n, after, rfl, -, -, ht⟩ | ⟨hnone, ht⟩
  · obtain ⟨htotal, hpositive, hdistinct, hmem⟩ := h
    simp only [List.forall_mem_append, List.forall_mem_cons] at hpositive hmem
    rw [ht]
    constructor
    · simp only [List.map_append, List.map_cons, List.sum_append, List.sum_cons,
        List.length_append, List.length_singleton] at htotal ⊢
      omega
    · simp only [List.forall_mem_append, List.forall_mem_cons]
      exact ⟨hpositive.1, Nat.le_add_left 1 n, hpositive.2.2⟩
    · simpa only [List.pairwise_append, List.pairwise_cons, List.forall_mem_cons] using hdistinct
    · rw [List.forall_mem_append, List.forall_mem_cons]
      exact ⟨fun e he => List.mem_append_left _ (hmem.1 e he), List.mem_append_left _ hmem.2.1,
        fun e he => List.mem_append_left _ (hmem.2.2 e he)⟩
  · rw [ht]
    constructor
    · simp only [List.map_append, List.sum_append, List.length_append, h.total]
      rfl
    · rw [List.forall_mem_append]
      exact ⟨h.positive, by simp⟩
    · rw [List.pairwise_append]
      exact ⟨h.distinct, List.pairwise_singleton _ _, by simpa using hnone⟩
    · rw [List.forall_mem_append]
      exact ⟨fun e he => List.mem_append_left _ (h.mem e he), by simp⟩

theorem lists_ofPresent (vs : List Value) : Lists (ofPresent vs) vs := by
  induction vs using List.reverseRecOn with
  | nil => exact ⟨rfl, by simp [ofPresent], .nil, by simp [ofPresent]⟩
  | append_singleton vs v ih =>
    rw [ofPresent_append]
    exact ih.tally v

theorem Lists.perm {counts counts' : List (Value × Nat)} {vs vs' : List Value}
    (h : Lists counts vs) (hp : counts'.Perm counts) (hv : vs'.Perm vs) : Lists counts' vs' where
  total := by rw [hv.length_eq, ← h.total, (hp.map _).sum_eq]
  positive entry he := h.positive entry (hp.mem_iff.mp he)
  distinct := by
    refine hp.symm.pairwise h.distinct fun {a b} hab => ?_
    rw [Value.same_comm]
    exact hab
  mem entry he := hv.mem_iff.mpr (h.mem entry (hp.mem_iff.mp he))

/-! ### Values that equality groups -/

/-- Equality of these values is that of the order, so it carries over from one value to the next. -/
def Grouped (vs : List Value) : Prop :=
  ∀ v ∈ vs, ∀ w ∈ vs, v.same w = true ↔ v.order w = .eq

/-- Values of which none is infinite, and of which numbers differ by the tolerance at least if they
differ at all, are grouped. -/
theorem grouped_of_separated {vs : List Value} (hinf : ∀ v ∈ vs, v.isInfinite = false)
    (hsep : ∀ v ∈ vs, ∀ w ∈ vs, v.Separated w) : Grouped vs := by
  intro v hv w hw
  rw [Value.same_iff]
  constructor
  · intro h
    have ho := Value.order?_of_compare? h (hsep v hv w hw)
    rw [Value.order?_of_kind (Value.kind_eq_of_order? ho)] at ho
    exact Option.some.inj ho
  · intro h
    have hk : v.kind = w.kind := by
      cases v <;> cases w <;> first | rfl | cases h
    exact Value.compare?_of_order? ((Value.order?_of_kind hk).trans (congrArg some h)) (hinf v hv)

theorem Grouped.mono {vs ws : List Value} (h : Grouped ws) (hs : ∀ v ∈ vs, v ∈ ws) : Grouped vs :=
  fun v hv w hw => h v (hs v hv) w (hs w hw)

section Grouped

variable {vs : List Value} {u v w : Value}

theorem Grouped.same_self (h : Grouped vs) (hv : v ∈ vs) : v.same v = true :=
  (h v hv v hv).mpr Std.ReflCmp.compare_self

/-- Equal values equal the same values. -/
theorem Grouped.same_eq (h : Grouped vs) (hu : u ∈ vs) (hv : v ∈ vs) (hw : w ∈ vs)
    (huv : u.same v = true) : u.same w = v.same w := by
  rw [Bool.eq_iff_iff, h u hu w hw, h v hv w hw, Std.TransCmp.congr_left ((h u hu v hv).mp huv)]

end Grouped

/-- Each value is counted with all values that equal it. -/
structure Counts (counts : List (Value × Nat)) (vs : List Value) : Prop where
  exact : ∀ entry ∈ counts, entry.2 = vs.countP (entry.1.same ·)
  covers : ∀ v ∈ vs, ∃ entry ∈ counts, entry.1.same v = true

section Counts

variable {counts before after : List (Value × Nat)} {vs : List Value} {v w : Value} {n : Nat}

theorem countP_same_append (vs : List Value) (u v : Value) :
    (vs ++ [v]).countP (u.same ·) = vs.countP (u.same ·) + if u.same v = true then 1 else 0 := by
  rw [List.countP_append, List.countP_singleton]

/-- An entry that the value more does not equal counts as many values as before. -/
theorem exact_of_differs {entries : List (Value × Nat)}
    (h : ∀ entry ∈ entries, entry.2 = vs.countP (entry.1.same ·))
    (hv : ∀ entry ∈ entries, entry.1.same v = false) :
    ∀ entry ∈ entries, entry.2 = (vs ++ [v]).countP (entry.1.same ·) := by
  intro entry he
  rw [countP_same_append, hv entry he, h entry he]
  rfl

/-- A value more that an entry equals is counted with it, and equals no entry behind it. -/
theorem Counts.raise (hg : Grouped (vs ++ [v])) (hl : Lists (before ++ (w, n) :: after) vs)
    (h : Counts (before ++ (w, n) :: after) vs) (hw : w.same v = true)
    (hbefore : ∀ entry ∈ before, entry.1.same v = false) :
    Counts (before ++ (w, n + 1) :: after) (vs ++ [v]) := by
  obtain ⟨hexact, hcovers⟩ := h
  obtain ⟨-, -, hdistinct, hmem⟩ := hl
  rw [List.forall_mem_append, List.forall_mem_cons] at hexact hmem
  have hafter : ∀ entry ∈ after, entry.1.same v = false := by
    intro entry he
    have htail := (List.pairwise_append.mp hdistinct).2.1
    have hne : w.same entry.1 = false := (List.pairwise_cons.mp htail).1 entry he
    rw [Value.same_comm, ← hg.same_eq (List.mem_append_left _ hmem.2.1)
      (List.mem_append_right _ (List.mem_singleton_self v))
      (List.mem_append_left _ (hmem.2.2 entry he)) hw, hne]
  constructor
  · rw [List.forall_mem_append, List.forall_mem_cons]
    refine ⟨exact_of_differs hexact.1 hbefore, ?_, exact_of_differs hexact.2.2 hafter⟩
    rw [countP_same_append, if_pos hw]
    exact congrArg (· + 1) hexact.2.1
  · have hlisted (u : Value) (hu : ∃ entry ∈ before ++ (w, n) :: after, entry.1.same u = true) :
        ∃ entry ∈ before ++ (w, n + 1) :: after, entry.1.same u = true := by
      simpa only [List.mem_append, List.mem_cons, or_and_right, exists_or, exists_eq_left] using hu
    rw [List.forall_mem_append, List.forall_mem_singleton]
    refine ⟨fun u hu => hlisted u (hcovers u hu), hlisted v ?_⟩
    exact ⟨(w, n), List.mem_append_right _ List.mem_cons_self, hw⟩

/-- A value more that equals no entry equals no value counted so far. -/
theorem Counts.list (hg : Grouped (vs ++ [v])) (hl : Lists counts vs) (h : Counts counts vs)
    (hnone : ∀ entry ∈ counts, entry.1.same v = false) :
    Counts (counts ++ [(v, 1)]) (vs ++ [v]) := by
  have hv : v ∈ vs ++ [v] := List.mem_append_right _ (List.mem_singleton_self v)
  have hzero : vs.countP (v.same ·) = 0 := by
    rw [List.countP_eq_zero]
    intro u hu huv
    -- the entry that such a value is counted with would equal the new one too
    obtain ⟨entry, he, hentry⟩ := h.covers u hu
    have hev := hg.same_eq (List.mem_append_left _ (hl.mem entry he))
      (List.mem_append_left _ hu) hv hentry
    rw [hnone entry he, Value.same_comm, huv] at hev
    cases hev
  constructor
  · rw [List.forall_mem_append, List.forall_mem_singleton]
    refine ⟨exact_of_differs h.exact hnone, ?_⟩
    rw [countP_same_append, hzero, if_pos (hg.same_self hv)]
  · rw [List.forall_mem_append, List.forall_mem_singleton]
    refine ⟨fun u hu => ?_, (v, 1), ?_, hg.same_self hv⟩
    · obtain ⟨entry, he, hentry⟩ := h.covers u hu
      exact ⟨entry, List.mem_append_left _ he, hentry⟩
    · exact List.mem_append_right _ (List.mem_singleton_self _)

theorem Counts.tally (hg : Grouped (vs ++ [v])) (hl : Lists counts vs) (h : Counts counts vs) :
    Counts (tally v counts) (vs ++ [v]) := by
  rcases tally_cases v counts with ⟨before, w, n, after, rfl, hw, hbefore, ht⟩ | ⟨hnone, ht⟩
  · rw [ht]
    exact .raise hg hl h hw hbefore
  · rw [ht]
    exact .list hg hl h hnone

theorem Counts.perm {counts' : List (Value × Nat)} {vs' : List Value} (h : Counts counts vs)
    (hp : counts'.Perm counts) (hv : vs'.Perm vs) : Counts counts' vs' where
  exact entry he := by rw [h.exact entry (hp.mem_iff.mp he), hv.countP_eq]
  covers v hm := by
    obtain ⟨entry, he, hs⟩ := h.covers v (hv.mem_iff.mp hm)
    exact ⟨entry, hp.mem_iff.mpr he, hs⟩

end Counts

theorem counts_ofPresent {vs : List Value} (h : Grouped vs) : Counts (ofPresent vs) vs := by
  induction vs using List.reverseRecOn with
  | nil => exact ⟨by simp [ofPresent], by simp⟩
  | append_singleton vs v ih =>
    rw [ofPresent_append]
    exact .tally h (lists_ofPresent vs) (ih (h.mono fun u hu => List.mem_append_left _ hu))

/-! ### The order of entries -/

theorem precedes_eq (v w : Value) : precedes v w = (v.order w).isLT := by
  cases v <;> cases w <;> rfl

theorem not_precedes (v w : Value) : (!precedes w v) = (v.order w).isLE := by
  rw [precedes_eq, @Std.OrientedCmp.eq_swap _ Value.order _ w v]
  cases v.order w <;> rfl

/-- Lists that an order sorts strictly, and that have the same elements up to its equality, agree
from the first element to the last. -/
theorem forall₂_of_sorted {α : Type} (cmp : α → α → Ordering) [Std.TransCmp cmp]
    {R : α → α → Prop} (hR : ∀ a b, R a b → cmp a b = .eq) {l m : List α}
    (hl : l.Pairwise fun a b => cmp a b = .lt) (hm : m.Pairwise fun a b => cmp a b = .lt)
    (hlm : ∀ a ∈ l, ∃ b ∈ m, R a b) (hml : ∀ b ∈ m, ∃ a ∈ l, R a b) : List.Forall₂ R l m := by
  induction l generalizing m with
  | nil =>
    cases m with
    | nil => exact .nil
    | cons b m =>
      obtain ⟨a, ha, -⟩ := hml b List.mem_cons_self
      cases ha
  | cons a l ih =>
    obtain ⟨hal, hl⟩ := List.pairwise_cons.mp hl
    obtain ⟨b', hb', hab'⟩ := hlm a List.mem_cons_self
    cases m with
    | nil => cases hb'
    | cons b m =>
      obtain ⟨hbm, hm⟩ := List.pairwise_cons.mp hm
      -- the heads agree: each agrees with some element, and both cannot be below the other
      have hab : R a b := by
        rcases List.mem_cons.mp hb' with rfl | hb'
        · exact hab'
        obtain ⟨a', ha', ha'b⟩ := hml b List.mem_cons_self
        rcases List.mem_cons.mp ha' with rfl | ha'
        · exact ha'b
        have hba : cmp b a = .lt :=
          Std.TransCmp.lt_of_lt_of_eq (hbm b' hb') (Std.OrientedCmp.eq_symm (hR a b' hab'))
        have hlt : cmp a b = .lt := Std.TransCmp.lt_of_lt_of_eq (hal a' ha') (hR a' b ha'b)
        rw [@Std.OrientedCmp.eq_swap _ cmp, hba] at hlt
        cases hlt
      refine .cons hab (ih hl hm (fun x hx => ?_) fun y hy => ?_)
      · obtain ⟨y, hy, hxy⟩ := hlm x (List.mem_cons_of_mem _ hx)
        rcases List.mem_cons.mp hy with rfl | hy
        · have hlt := Std.TransCmp.lt_of_lt_of_eq (hal x hx) (hR x y hxy)
          rw [hR a y hab] at hlt
          cases hlt
        · exact ⟨y, hy, hxy⟩
      · obtain ⟨x, hx, hxy⟩ := hml y (List.mem_cons_of_mem _ hy)
        rcases List.mem_cons.mp hx with rfl | hx
        · have hlt := Std.TransCmp.lt_of_eq_of_lt (hR x b hab) (hbm y hy)
          rw [hR x y hxy] at hlt
          cases hlt
        · exact ⟨x, hx, hxy⟩

section Sorted

variable {counts counts' : List (Value × Nat)} {vs : List Value}

theorem Lists.pairwise_lt (hg : Grouped vs) (h : Lists counts vs)
    (ho : counts.Pairwise fun a b => (a.1.order b.1).isLE) :
    counts.Pairwise fun a b => a.1.order b.1 = .lt := by
  refine (h.distinct.and ho).imp_of_mem fun {a b} ha hb hab => ?_
  have hne : a.1.order b.1 ≠ .eq := by
    rw [Ne, ← hg a.1 (h.mem a ha) b.1 (h.mem b hb), hab.1]
    exact Bool.false_ne_true
  cases ho : a.1.order b.1 with
  | lt => rfl
  | eq => exact absurd ho hne
  | gt => simp [ho] at hab

/-- Two counts of the same values list equal values with equal counts, one after the other. -/
theorem Counts.forall₂ (hg : Grouped vs) (hl : Lists counts vs) (hl' : Lists counts' vs)
    (h : Counts counts vs) (h' : Counts counts' vs)
    (ho : counts.Pairwise fun a b => (a.1.order b.1).isLE)
    (ho' : counts'.Pairwise fun a b => (a.1.order b.1).isLE) :
    List.Forall₂ (fun a b => a.1.same b.1 = true ∧ a.2 = b.2) counts counts' := by
  have hentry {a b : Value × Nat} (ha : a ∈ counts) (hb : b ∈ counts')
      (hab : a.1.same b.1 = true) : a.1.order b.1 = .eq ∧ a.1.same b.1 = true ∧ a.2 = b.2 := by
    have hav := hl.mem a ha
    have hbv := hl'.mem b hb
    refine ⟨(hg _ hav _ hbv).mp hab, hab, ?_⟩
    rw [h.exact a ha, h'.exact b hb]
    exact List.countP_congr fun w hw => by rw [hg.same_eq hav hbv hw hab]
  have hsorted := forall₂_of_sorted (compareOn (β := Value) Prod.fst)
    (R := fun a b => a.1.order b.1 = .eq ∧ a.1.same b.1 = true ∧ a.2 = b.2)
    (fun a b hab => hab.1) (hl.pairwise_lt hg ho) (hl'.pairwise_lt hg ho') ?_ ?_
  · exact hsorted.imp fun a b hab => hab.2
  · intro a ha
    obtain ⟨b, hb, hba⟩ := h'.covers a.1 (hl.mem a ha)
    rw [Value.same_comm] at hba
    exact ⟨b, hb, hentry ha hb hba⟩
  · intro b hb
    obtain ⟨a, ha, hab⟩ := h.covers b.1 (hl'.mem b hb)
    exact ⟨a, ha, hentry ha hb hab⟩

end Sorted

/-! ### Columns -/

section Column

variable (d : Dataset) (column : String)

def presentValues : List Value := (d.columnValues column).filter (! ·.isMissing)

theorem ofColumn_missing :
    (ofColumn d column).missing = (d.columnValues column).countP Value.isMissing := by
  simp only [ofColumn, foldl_add, Nat.zero_add]

theorem ofColumn_counts : (ofColumn d column).counts =
    (ofPresent (presentValues d column)).mergeSort fun a b => (a.1.order b.1).isLE := by
  simp only [ofColumn, foldl_add, not_precedes]
  rfl

theorem perm_ofColumn : (ofColumn d column).counts.Perm (ofPresent (presentValues d column)) := by
  rw [ofColumn_counts]
  exact List.mergeSort_perm _ _

theorem ofColumn_ordered :
    (ofColumn d column).counts.Pairwise fun a b => (a.1.order b.1).isLE := by
  rw [ofColumn_counts]
  refine List.pairwise_mergeSort (fun a b c hab hbc => ?_) (fun a b => ?_) _
  · exact Std.TransCmp.isLE_trans hab hbc
  · rw [@Std.OrientedCmp.eq_swap _ Value.order _ b.1 a.1]
    cases a.1.order b.1 <;> rfl

theorem lists_ofColumn : Lists (ofColumn d column).counts (presentValues d column) :=
  (lists_ofPresent _).perm (perm_ofColumn d column) (.refl _)

variable {d column}

theorem mem_presentValues {v : Value} :
    v ∈ presentValues d column ↔ v ∈ d.columnValues column ∧ v.isMissing = false := by
  rw [presentValues, List.mem_filter, Bool.not_eq_true']

theorem countP_presentValues {v : Value} (h : v.isMissing = false) :
    (presentValues d column).countP (v.same ·) = (d.columnValues column).countP (v.same ·) := by
  rw [presentValues, List.countP_filter]
  refine List.countP_congr fun w _ => ?_
  rw [Bool.and_eq_true, Bool.not_eq_true']
  refine and_iff_left_of_imp fun hw => ?_
  rw [← Value.isMissing_eq_of_same hw, h]

/-- Columns with the same values in another order have the same present values. -/
theorem perm_presentValues (column : String) {d' : Dataset} (hc : d'.columns = d.columns)
    (hr : d'.rows.Perm d.rows) :
    (d'.columnValues column).Perm (d.columnValues column) ∧
      (presentValues d' column).Perm (presentValues d column) := by
  have hcell : d'.rowCell? = d.rowCell? := by
    funext row name
    rw [Dataset.rowCell?, Dataset.rowCell?, Dataset.column?, Dataset.column?, hc]
  have hperm : (d'.columnValues column).Perm (d.columnValues column) := by
    rw [Dataset.columnValues, Dataset.columnValues, hcell]
    exact hr.map _
  exact ⟨hperm, hperm.filter _⟩

end Column

/-- The counts of a column and the missing values add up to its rows. Every listed value occurs, no
two of them are equal, and they are in order, numbers before texts. If no value is infinite and
different numbers are at least the tolerance apart, each count is that of the rows with an equal
value, and the rows may stand in any order. -/
theorem frequencies_count_rows (d : Dataset) (column : String) :
    ((ofColumn d column).counts.map (·.2)).sum + (ofColumn d column).missing = d.rows.length ∧
    (∀ entry ∈ (ofColumn d column).counts, 1 ≤ entry.2) ∧
    ((ofColumn d column).counts.Pairwise fun a b => a.1.same b.1 = false ∧ b.1.same a.1 = false) ∧
    ((ofColumn d column).counts.Pairwise fun a b => (a.1.order b.1).isLE) ∧
    ((∀ v ∈ d.columnValues column, v.isInfinite = false) →
      (∀ v ∈ d.columnValues column, ∀ w ∈ d.columnValues column, v.Separated w) →
      (∀ entry ∈ (ofColumn d column).counts,
        entry.2 = (d.columnValues column).countP (entry.1.same ·)) ∧
      ∀ d' : Dataset, d'.columns = d.columns → d'.rows.Perm d.rows →
        (ofColumn d' column).missing = (ofColumn d column).missing ∧
        List.Forall₂ (fun a b => a.1.same b.1 = true ∧ a.2 = b.2)
          (ofColumn d column).counts (ofColumn d' column).counts) := by
  have hlists := lists_ofColumn d column
  refine ⟨?_, hlists.positive, ?_, ofColumn_ordered d column, fun hinf hsep => ?_⟩
  · have hlength : (d.columnValues column).length = d.rows.length := List.length_map ..
    rw [hlists.total, presentValues, ← List.countP_eq_length_filter, ofColumn_missing, ← hlength,
      List.length_eq_countP_add_countP Value.isMissing, Nat.add_comm]
    simp only [Bool.not_eq_true, Bool.decide_eq_false]
  · refine hlists.distinct.imp fun {a b} hab => ⟨hab, ?_⟩
    rw [Value.same_comm, hab]
  · have hg : Grouped (presentValues d column) :=
      (grouped_of_separated hinf hsep).mono fun v hv => (mem_presentValues.mp hv).1
    have hcounts : Counts (ofColumn d column).counts (presentValues d column) :=
      (counts_ofPresent hg).perm (perm_ofColumn d column) (.refl _)
    constructor
    · intro entry he
      rw [hcounts.exact entry he,
        countP_presentValues (mem_presentValues.mp (hlists.mem entry he)).2]
    · intro d' hc hr
      obtain ⟨hvalues, hpresent⟩ := perm_presentValues column hc hr
      have hg' : Grouped (presentValues d' column) := hg.mono fun v hv => hpresent.mem_iff.mp hv
      have hlists' : Lists (ofColumn d' column).counts (presentValues d column) :=
        (lists_ofColumn d' column).perm (.refl _) hpresent.symm
      have hcounts' : Counts (ofColumn d' column).counts (presentValues d column) :=
        (counts_ofPresent hg').perm (perm_ofColumn d' column) hpresent.symm
      refine ⟨?_, ?_⟩
      · rw [ofColumn_missing, ofColumn_missing, hvalues.countP_eq]
      · exact hcounts.forall₂ hg hlists hlists' hcounts' (ofColumn_ordered d column)
          (ofColumn_ordered d' column)

/-- Marks of two kinds: zeros of either sign, a text with and without a trailing blank, and cells
that are missing or absent. -/
def marks (rows : List Row) : Dataset where
  name := "marks"
  columns := ["mark"]
  rows := rows

def markRows : List Row :=
  [[("mark", .number 0.0)], [("mark", .missing)], [("mark", .number 2.5)], [("mark", .text "a")],
    [], [("mark", .text "a ")], [("mark", .number (-0.0))]]

theorem frequencies_count_rows_marks :
    (∀ v ∈ (marks markRows).columnValues "mark", v.isInfinite = false) ∧
    (∀ v ∈ (marks markRows).columnValues "mark", ∀ w ∈ (marks markRows).columnValues "mark",
      v.Separated w) ∧
    (marks markRows.reverse).rows.Perm (marks markRows).rows ∧
    (∀ entry ∈ (ofColumn (marks markRows) "mark").counts,
      entry.2 = ((marks markRows).columnValues "mark").countP (entry.1.same ·)) ∧
    List.Forall₂ (fun a b => a.1.same b.1 = true ∧ a.2 = b.2)
      (ofColumn (marks markRows) "mark").counts (ofColumn (marks markRows.reverse) "mark").counts ∧
    (ofColumn (marks markRows) "mark").counts =
      [(.number 0.0, 2), (.number 2.5, 1), (.text "a", 2)] := by
  have hinf : ∀ v ∈ (marks markRows).columnValues "mark", v.isInfinite = false := by
    decide +kernel
  have hsep : ∀ v ∈ (marks markRows).columnValues "mark",
      ∀ w ∈ (marks markRows).columnValues "mark", v.Separated w := by decide +kernel
  have hperm : (marks markRows.reverse).rows.Perm (marks markRows).rows := List.reverse_perm _
  obtain ⟨-, -, -, -, hexact⟩ := frequencies_count_rows (marks markRows) "mark"
  obtain ⟨hcounts, hreorder⟩ := hexact hinf hsep
  refine ⟨hinf, hsep, hperm, hcounts, (hreorder (marks markRows.reverse) rfl hperm).2, ?_⟩
  have hpresent : ofPresent (presentValues (marks markRows) "mark") =
      [(.number 0.0, 2), (.number 2.5, 1), (.text "a", 2)] := by decide +kernel
  rw [ofColumn_counts, hpresent]
  exact List.mergeSort_of_pairwise (by decide +kernel)

end Frequencies

end StepLang
