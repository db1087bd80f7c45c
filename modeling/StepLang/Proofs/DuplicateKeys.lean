import StepLang.Proofs.NumberRounding
import StepLang.Proofs.StableSort

/-! # Dropping duplicate keys

Sorted rows are compared with the last row kept, so every row that is dropped has the keys of a row
kept before it, and neighbours that are kept differ. Two kept rows further apart differ too if only
the last key has values that are unequal within the tolerance: the other keys then tell rows apart
exactly, and in the last key a row between two equal ones equals both. With a tolerant key before
another one, rows of one group need not be neighbours, and the group is kept more than once.
-/

namespace StepLang

/-! ### Values between equal values -/

theorem Value.compare?_symm {v w : Value} (h : v.compare? w = some .eq) :
    w.compare? v = some .eq := by
  cases v with
  | number x =>
    cases w with
    | number y => exact congrArg some (compareNumbers_symm (Option.some.inj h))
    | text t => cases h
  | text s =>
    cases w with
    | number y => cases h
    | text t => exact congrArg some (Std.OrientedCmp.eq_symm (Option.some.inj h))

theorem compare_between {α : Type} {cmp : α → α → Ordering} [Std.TransCmp cmp] {a b c : α}
    (hab : (cmp a b).isLE) (hbc : (cmp b c).isLE) (h : cmp a c = .eq) :
    cmp a b = .eq ∧ cmp b c = .eq := by
  have hca : (cmp c a).isLE := by
    rw [Std.OrientedCmp.eq_symm h]
    rfl
  exact ⟨Std.OrientedCmp.isLE_antisymm hab (Std.TransCmp.isLE_trans hbc hca),
    Std.OrientedCmp.isLE_antisymm hbc (Std.TransCmp.isLE_trans hca hab)⟩

/-- A value between two that compare equal compares equal to both. -/
theorem Value.compare?_between {u v w : Value} (huv : (u.order v).isLE) (hvw : (v.order w).isLE)
    (h : u.compare? w = some .eq) : u.compare? v = some .eq ∧ v.compare? w = some .eq := by
  cases u with
  | number x =>
    cases w with
    | text t => cases h
    | number z =>
      cases v with
      | text t => cases hvw
      | number y =>
        obtain ⟨hxy, hyz⟩ := compareNumbers_between huv hvw (Option.some.inj h)
        exact ⟨congrArg some hxy, congrArg some hyz⟩
  | text s =>
    cases w with
    | number z => cases h
    | text t =>
      cases v with
      | number y => cases huv
      | text t' =>
        obtain ⟨hs, ht⟩ := @compare_between _ compareTexts _ _ _ _ huv hvw (Option.some.inj h)
        exact ⟨congrArg some hs, congrArg some ht⟩

/-! ### Rows between rows of one group -/

namespace ByVariable

variable {key : ByVariable} {r s t : Row}

theorem Comparable.matches_iff (h : key.Comparable r s) : key.matches r s = true ↔
    ∃ v w, r.get? key.name = some v ∧ s.get? key.name = some w ∧ v.compare? w = some .eq := by
  obtain ⟨v, w, hv, hw, hk⟩ := h
  simp only [ByVariable.matches, hv, hw]
  cases v <;> cases w <;> simp [Value.compare?, Value.kind] at hk ⊢

theorem Comparable.symm (h : key.Comparable r s) : key.Comparable s r := by
  obtain ⟨v, w, hv, hw, hk⟩ := h
  exact ⟨w, v, hw, hv, hk.symm⟩

theorem Comparable.matches_symm (h : key.Comparable r s) (hm : key.matches r s = true) :
    key.matches s r = true := by
  obtain ⟨v, w, hv, hw, hc⟩ := h.matches_iff.mp hm
  exact h.symm.matches_iff.mpr ⟨w, v, hw, hv, Value.compare?_symm hc⟩

theorem Comparable.matches_between (hrt : key.Comparable r t) (hts : key.Comparable t s)
    (hrs : key.Comparable r s) (hle : (key.order r t).isLE) (hle' : (key.order t s).isLE)
    (hm : key.matches r s = true) : key.matches r t = true := by
  obtain ⟨v, w, hv, hw, hc⟩ := hrs.matches_iff.mp hm
  obtain ⟨u, -, hu, -, -⟩ := id hts
  refine hrt.matches_iff.mpr ⟨v, u, hv, hu, ?_⟩
  rw [hrt.order_eq] at hle
  rw [hts.order_eq] at hle'
  simp only [totalOrder] at hle hle'
  cases hd : key.descending with
  | false =>
    simp only [hd, Bool.false_eq_true, if_false, compareOn, hv, hu, hw] at hle hle'
    exact (Value.compare?_between hle hle' hc).1
  | true =>
    simp only [hd, if_true, compareOn, hv, hu, hw] at hle hle'
    exact Value.compare?_symm (Value.compare?_between hle' hle (Value.compare?_symm hc)).2

end ByVariable

/-- The keys tell the rows apart as the order does: different numbers are at least the tolerance
apart. -/
def SeparatedKeys (keys : List ByVariable) (rows : List Row) : Prop :=
  ∀ key ∈ keys, ∀ r ∈ rows, ∀ s ∈ rows, ∀ v ∈ r.get? key.name, ∀ w ∈ s.get? key.name,
    v.Separated w

instance (keys : List ByVariable) (rows : List Row) : Decidable (SeparatedKeys keys rows) :=
  inferInstanceAs (Decidable (∀ key ∈ keys, ∀ r ∈ rows, ∀ s ∈ rows, ∀ v ∈ r.get? key.name,
    ∀ w ∈ s.get? key.name, v.Separated w))

variable {keys : List ByVariable} {rows : List Row} {r s t : Row}

theorem UniformKeys.sameKeys_symm (h : UniformKeys keys rows) (hr : r ∈ rows) (hs : s ∈ rows)
    (hm : sameKeys keys r s = true) : sameKeys keys s r = true := by
  rw [sameKeys, List.all_eq_true] at hm ⊢
  intro key hk
  exact (h.comparable hr hs key hk).matches_symm (hm key hk)

/-- A row between two rows of one group is of this group. -/
theorem sameKeys_between (hrt : ∀ key ∈ keys, key.Comparable r t)
    (hts : ∀ key ∈ keys, key.Comparable t s) (hrs : ∀ key ∈ keys, key.Comparable r s)
    (hsep : ∀ key ∈ keys.dropLast, key.matches r s = true → key.order r s = .eq)
    (hle : (compareRows keys r t).isLE) (hle' : (compareRows keys t s).isLE)
    (hm : sameKeys keys r s = true) : sameKeys keys r t = true := by
  induction keys with
  | nil => rfl
  | cons key keys ih =>
    rw [compareRows_cons] at hle hle'
    simp only [sameKeys, List.all_cons, Bool.and_eq_true] at hm ⊢
    obtain ⟨hm, hms⟩ := hm
    have hkrt := hrt key List.mem_cons_self
    have hkts := hts key List.mem_cons_self
    have hkrs := hrs key List.mem_cons_self
    have hfirst := Ordering.isLE_left_of_isLE_then hle
    have hfirst' := Ordering.isLE_left_of_isLE_then hle'
    refine ⟨hkrt.matches_between hkts hkrs hfirst hfirst' hm, ?_⟩
    cases keys with
    | nil => rfl
    | cons key' keys =>
      -- a key before the last does not tell the two rows apart, nor the row between them
      have heq := hsep key List.mem_cons_self hm
      rw [hkrt.order_eq] at hfirst hle
      rw [hkts.order_eq] at hfirst' hle'
      rw [hkrs.order_eq] at heq
      obtain ⟨hrt', hts'⟩ := compare_between hfirst hfirst' heq
      rw [hrt'] at hle
      rw [hts'] at hle'
      exact ih (fun k hk => hrt k (List.mem_cons_of_mem _ hk))
        (fun k hk => hts k (List.mem_cons_of_mem _ hk))
        (fun k hk => hrs k (List.mem_cons_of_mem _ hk))
        (fun k hk => hsep k (List.mem_cons_of_mem _ hk)) hle hle' hms

theorem UniformKeys.order_of_matches (h : UniformKeys keys rows) (hr : r ∈ rows) (hs : s ∈ rows)
    {key : ByVariable} (hk : key ∈ keys)
    (hsep : ∀ v ∈ r.get? key.name, ∀ w ∈ s.get? key.name, v.Separated w)
    (hm : key.matches r s = true) : key.order r s = .eq := by
  obtain ⟨v, w, hv, hw, hc⟩ := (h.comparable hr hs key hk).matches_iff.mp hm
  have ho := Value.order?_of_compare? hc (hsep v hv w hw)
  simp only [ByVariable.order, hv, hw, ho]
  cases key.descending <;> rfl

/-- Sorted rows that differ from their neighbours all differ. -/
theorem UniformKeys.pairwise_of_isChain (h : UniformKeys keys rows)
    (hsep : SeparatedKeys keys.dropLast rows) {kept : List Row} (hkept : ∀ r ∈ kept, r ∈ rows)
    (hsorted : kept.Pairwise fun r s => (compareRows keys r s).isLE)
    (hchain : kept.IsChain fun r s => sameKeys keys r s = false) :
    kept.Pairwise fun r s => sameKeys keys r s = false := by
  induction kept with
  | nil => exact .nil
  | cons r kept ih =>
    have hrest := ih (fun s hs => hkept s (List.mem_cons_of_mem _ hs)) hsorted.tail hchain.tail
    refine List.pairwise_cons.mpr ⟨?_, hrest⟩
    cases kept with
    | nil => exact fun s hs => nomatch hs
    | cons t kept =>
      obtain ⟨hrow, hsorted⟩ := List.pairwise_cons.mp hsorted
      obtain ⟨hnext, -⟩ := List.isChain_cons_cons.mp hchain
      have hr := hkept r List.mem_cons_self
      have ht := hkept t (List.mem_cons_of_mem _ List.mem_cons_self)
      intro s hs
      rcases List.mem_cons.mp hs with rfl | hs'
      · exact hnext
      · -- the neighbour lies between the two rows, so it would have the keys of the first
        have hmem := hkept s (List.mem_cons_of_mem _ hs)
        refine eq_false_of_ne_true fun hm => Bool.false_ne_true (hnext.symm.trans ?_)
        exact sameKeys_between (h.comparable hr ht) (h.comparable ht hmem) (h.comparable hr hmem)
          (fun key hk => h.order_of_matches hr hmem (List.dropLast_subset _ hk)
            (hsep key hk r hr s hmem))
          (hrow t List.mem_cons_self) ((List.pairwise_cons.mp hsorted).1 s hs') hm

/-! ### Rows left out -/

/-- A list with elements left out, each of them the same as one that was kept before it. The first
list holds what was kept so far. -/
inductive Thinned {α : Type} (same : α → α → Bool) : List α → List α → List α → Prop
  | nil (before : List α) : Thinned same before [] []
  | keep (a : α) {before as kept : List α} : Thinned same (a :: before) as kept →
      Thinned same before (a :: as) (a :: kept)
  | drop (a : α) {before as kept : List α} : (∃ b ∈ before, same b a = true) →
      Thinned same before as kept → Thinned same before (a :: as) kept

section Repeats

variable {α : Type} {same : α → α → Bool}

theorem Thinned.sublist {before as kept : List α} (h : Thinned same before as kept) :
    kept.Sublist as := by
  induction h with
  | nil => exact .slnil
  | keep a _ ih => exact ih.cons_cons a
  | drop a _ _ ih => exact ih.cons a

theorem thinned_dropFrom (a : α) (as before : List α) (ha : a ∈ before) :
    Thinned same before as (dropRepeats.dropFrom same a as) := by
  induction as generalizing a before with
  | nil => exact .nil before
  | cons b bs ih =>
    unfold dropRepeats.dropFrom
    split
    · rename_i hb
      exact .drop b ⟨a, ha, hb⟩ (ih a before ha)
    · exact .keep b (ih b (b :: before) List.mem_cons_self)

theorem thinned_dropRepeats (as : List α) : Thinned same [] as (dropRepeats same as) := by
  cases as with
  | nil => exact .nil []
  | cons a as => exact .keep a (thinned_dropFrom a as [a] List.mem_cons_self)

theorem isChain_dropFrom (a : α) (as : List α) :
    (a :: dropRepeats.dropFrom same a as).IsChain fun b c => same b c = false := by
  induction as generalizing a with
  | nil => exact .singleton a
  | cons b bs ih =>
    unfold dropRepeats.dropFrom
    split
    · exact ih a
    · rename_i hb
      exact .cons_cons (eq_false_of_ne_true hb) (ih b)

theorem isChain_dropRepeats (as : List α) :
    (dropRepeats same as).IsChain fun b c => same b c = false := by
  cases as with
  | nil => exact .nil
  | cons a as => exact isChain_dropFrom a as

end Repeats

/-- Sorting without duplicate keys. The rows kept are those of the stable sort, less some that have
the keys of a row kept before them, and neighbours have different keys. If different values of all
keys but the last are at least the tolerance apart, no two rows kept have the same keys. -/
theorem nodupkey_keeps_firsts (h : UniformKeys keys rows) :
    ∃ sorted, StableSort keys rows sorted ∧
      Thinned (sameKeys keys) [] sorted (sortRows keys true false rows) ∧
      (sortRows keys true false rows).IsChain (fun r s => sameKeys keys r s = false) ∧
      (SeparatedKeys keys.dropLast rows → (sortRows keys true false rows).Pairwise
        fun r s => sameKeys keys r s = false ∧ sameKeys keys s r = false) := by
  have hthin := @thinned_dropRepeats _ (sameKeys keys) (orderRows keys rows)
  have hchain := @isChain_dropRepeats _ (sameKeys keys) (orderRows keys rows)
  refine ⟨orderRows keys rows, h.stableSort, hthin, hchain, fun hsep => ?_⟩
  have hsub := hthin.sublist
  have hmem : ∀ r ∈ dropRepeats (sameKeys keys) (orderRows keys rows), r ∈ rows :=
    fun r hr => h.stableSort.perm.mem_iff.mp (hsub.subset hr)
  have hsorted := h.stableSort.ordered.sublist hsub
  have hsorted := hsorted.imp_of_mem (S := fun r s => (compareRows keys r s).isLE)
    fun {r s} hr hs hrs => by
      rw [h.orderedBy.swap s (hmem s hs) r (hmem r hr)]
      cases hc : compareRows keys s r <;> simp [hc] at hrs ⊢
  have hdiffer := h.pairwise_of_isChain hsep hmem hsorted hchain
  refine hdiffer.imp_of_mem fun {r s} hr hs hrs => ⟨hrs, ?_⟩
  refine eq_false_of_ne_true fun hm => Bool.false_ne_true (hrs.symm.trans ?_)
  exact h.sameKeys_symm (hmem s hs) (hmem r hr) hm

/-- Readings of two sites, those of the first drift by less than the tolerance at a time. -/
def driftingReadings : List Row := [
  [("site", .text "b"), ("level", .number 1.0)],
  [("site", .text "a"), ("level", .number 1.00000012)],
  [("site", .text "a "), ("level", .number 1.00000006)],
  [("site", .text "a"), ("level", .number 1.0)]]

def bySiteAndLevel : List ByVariable := [⟨"site", false⟩, ⟨"level", true⟩]

theorem nodupkey_keeps_firsts_driftingReadings :
    UniformKeys bySiteAndLevel driftingReadings ∧
      SeparatedKeys bySiteAndLevel.dropLast driftingReadings ∧
      ∃ sorted, StableSort bySiteAndLevel driftingReadings sorted ∧
        Thinned (sameKeys bySiteAndLevel) [] sorted
          (sortRows bySiteAndLevel true false driftingReadings) ∧
        (sortRows bySiteAndLevel true false driftingReadings).Pairwise
          fun r s => sameKeys bySiteAndLevel r s = false ∧ sameKeys bySiteAndLevel s r = false := by
  have hu : UniformKeys bySiteAndLevel driftingReadings := by decide +kernel
  have hs : SeparatedKeys bySiteAndLevel.dropLast driftingReadings := by decide +kernel
  obtain ⟨sorted, hsorted, hthin, -, hpair⟩ := nodupkey_keeps_firsts hu
  exact ⟨hu, hs, sorted, hsorted, hthin, hpair hs⟩

/-- Levels that drift by less than the tolerance, and the site as the second key. -/
def driftingLevels : List Row := [
  [("level", .number 1.0), ("site", .number 0.0)],
  [("level", .number 1.00000001), ("site", .number 5.0)],
  [("level", .number 1.00000002), ("site", .number 0.0)]]

def byLevelAndSite : List ByVariable := [⟨"level", false⟩, ⟨"site", false⟩]

/-- With a tolerant key before another one, a group can be kept twice: its rows are no
neighbours. -/
theorem nodupkey_keeps_group_twice :
    UniformKeys byLevelAndSite driftingLevels ∧
      (∀ r ∈ driftingLevels, r.KeysBounded byLevelAndSite) ∧
      sortRows byLevelAndSite true false driftingLevels = driftingLevels ∧
      ¬ driftingLevels.Pairwise fun r s => sameKeys byLevelAndSite r s = false := by
  have hu : UniformKeys byLevelAndSite driftingLevels := by decide +kernel
  have hsorted : orderRows byLevelAndSite driftingLevels = driftingLevels := by
    rw [orderRows, if_pos (uniformKeys_iff.mp hu)]
    exact List.mergeSort_of_pairwise (by decide +kernel)
  have hkept : dropRepeats (sameKeys byLevelAndSite) driftingLevels = driftingLevels := by
    decide +kernel
  refine ⟨hu, by decide +kernel, ?_, by decide +kernel⟩
  calc sortRows byLevelAndSite true false driftingLevels
    _ = dropRepeats (sameKeys byLevelAndSite) (orderRows byLevelAndSite driftingLevels) := rfl
    _ = driftingLevels := by rw [hsorted, hkept]

end StepLang
