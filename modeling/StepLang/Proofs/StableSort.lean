import StepLang.Proofs.RowOrder

/-! # Sorted rows

Where every row has every key, with values of one kind, the comparison of rows is a total preorder,
and sorting gives the rows in this order, equal ones in the order in which they came.
-/

namespace StepLang

variable {keys : List ByVariable} {rows : List Row}

/-- The comparison of these rows is a total preorder. -/
structure OrderedBy (keys : List ByVariable) (rows : List Row) : Prop where
  swap : ∀ r ∈ rows, ∀ s ∈ rows, compareRows keys s r = (compareRows keys r s).swap
  trans : ∀ r ∈ rows, ∀ s ∈ rows, ∀ t ∈ rows, (compareRows keys r s).isLE →
    (compareRows keys s t).isLE → (compareRows keys r t).isLE

theorem UniformKeys.orderedBy (h : UniformKeys keys rows) : OrderedBy keys rows where
  swap r hr s hs := by
    rw [h.compareRows_eq hr hs, h.compareRows_eq hs hr]
    exact Std.OrientedCmp.eq_swap
  trans r hr s hs t ht hrs hst := by
    rw [h.compareRows_eq hr hs] at hrs
    rw [h.compareRows_eq hs ht] at hst
    rw [h.compareRows_eq hr ht]
    exact Std.TransCmp.isLE_trans hrs hst

def group (keys : List ByVariable) (r : Row) (rows : List Row) : List Row :=
  rows.filter fun s => compareRows keys r s == .eq

/-- The rows in the order of the keys, those that compare equal in the order of the input. -/
structure StableSort (keys : List ByVariable) (input sorted : List Row) : Prop where
  perm : sorted.Perm input
  ordered : sorted.Pairwise fun r s => compareRows keys s r ≠ .lt
  stable : ∀ r ∈ input, group keys r sorted = group keys r input

/-- Uniform keys sort the rows by the total order of all rows. -/
theorem UniformKeys.orderRows_eq (h : UniformKeys keys rows) :
    orderRows keys rows = rows.mergeSort fun r s => (totalOrder keys r s).isLE := by
  rw [orderRows, if_pos (uniformKeys_iff.mp h)]
  have hmap : (rows.mergeSort fun r s => (compareRows keys r s).isLE).map id =
      (rows.map id).mergeSort fun r s => (totalOrder keys r s).isLE := by
    refine List.map_mergeSort fun r hr s hs => ?_
    rw [h.compareRows_eq hr hs]
    rfl
  rwa [List.map_id, List.map_id] at hmap

/-- The total order, as the relation that sorting is about, is transitive and total. -/
theorem totalOrder_isLE_trans (a b c : Row) (hab : (totalOrder keys a b).isLE)
    (hbc : (totalOrder keys b c).isLE) : (totalOrder keys a c).isLE :=
  Std.TransCmp.isLE_trans hab hbc

theorem totalOrder_isLE_total (a b : Row) :
    ((totalOrder keys a b).isLE || (totalOrder keys b a).isLE) = true := by
  rw [@Std.OrientedCmp.eq_swap _ (totalOrder keys) _ b a]
  cases totalOrder keys a b <;> rfl

theorem UniformKeys.stableSort (h : UniformKeys keys rows) :
    StableSort keys rows (orderRows keys rows) := by
  rw [h.orderRows_eq]
  generalize hle : (fun r s => (totalOrder keys r s).isLE) = le
  have htrans : ∀ a b c, le a b → le b c → le a c := by
    subst hle
    exact totalOrder_isLE_trans
  have htotal : ∀ a b, (le a b || le b a) = true := by
    subst hle
    exact totalOrder_isLE_total
  have hperm : (rows.mergeSort le).Perm rows := List.mergeSort_perm rows le
  have hcmp {r s} (hr : r ∈ rows) (hs : s ∈ rows) : le r s = (compareRows keys r s).isLE := by
    rw [h.compareRows_eq hr hs, ← hle]
  refine ⟨hperm, ?_, ?_⟩
  · have hsorted := List.pairwise_mergeSort htrans htotal rows
    refine hsorted.imp_of_mem fun {r s} hr hs hrs => ?_
    have hr := hperm.mem_iff.mp hr
    have hs := hperm.mem_iff.mp hs
    rw [hcmp hr hs] at hrs
    rw [h.orderedBy.swap r hr s hs]
    cases hc : compareRows keys r s <;> simp [hc] at hrs ⊢
  · intro r hr
    -- the rows that compare equal to `r` are in order already, so sorting keeps them as they are
    have hpair : (group keys r rows).Pairwise (le · ·) := by
      refine List.pairwise_of_forall_mem_list fun a ha b hb => ?_
      obtain ⟨ha, har⟩ := List.mem_filter.mp ha
      obtain ⟨hb, hbr⟩ := List.mem_filter.mp hb
      have har : (compareRows keys a r).isLE := by
        rw [h.orderedBy.swap r hr a ha, beq_iff_eq.mp har]
        rfl
      have hrb : (compareRows keys r b).isLE := by
        rw [beq_iff_eq.mp hbr]
        rfl
      rw [hcmp ha hb]
      exact h.orderedBy.trans a ha r hr b hb har hrb
    have hsub : (group keys r rows).Sublist (rows.mergeSort le) :=
      List.sublist_mergeSort htrans htotal hpair List.filter_sublist
    have hsub := hsub.filter fun s => compareRows keys r s == .eq
    rw [group, List.filter_filter] at hsub
    simp only [Bool.and_self] at hsub
    exact (hsub.eq_of_length (hperm.filter _).length_eq.symm).symm

end StepLang
