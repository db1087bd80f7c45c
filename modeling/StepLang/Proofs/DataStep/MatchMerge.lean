import StepLang.Proofs.DataStep.JoinedRows
import StepLang.Proofs.DataStep.MergeLoop
import StepLang.Proofs.StableSort

/-! # Match-merging

A merge of sorted sources gives the rows of each tuple of keys together, the tuples in their order.
For each tuple there are as many rows as the source with most of them has, and a source with fewer
repeats its last one.
-/

namespace StepLang.DataStep

variable {keys : List ByVariable} {all : List Row}

/-! ### Groups of rows -/

/-- The tolerance does not bring different keys together: each key has values of one kind, none is
infinite, and different numbers are at least the tolerance apart. -/
structure Distinguishes (keys : List ByVariable) (rows : List Row) : Prop where
  uniform : UniformKeys keys rows
  bounded : ∀ r ∈ rows, r.KeysBounded keys
  separated : ∀ key ∈ keys, ∀ r ∈ rows, ∀ s ∈ rows, ∀ v ∈ r.get? key.name,
    ∀ w ∈ s.get? key.name, v.Separated w

theorem matches_iff {key : ByVariable} {r s : Row} {v w : Value} (hv : r.get? key.name = some v)
    (hw : s.get? key.name = some w) (hk : v.kind = w.kind) (hb : v.isInfinite = false)
    (hs : v.Separated w) : key.matches r s = true ↔ key.order r s = .eq := by
  have horder : key.order r s = .eq ↔ v.order? w = some .eq := by
    simp only [ByVariable.order, hv, hw, Value.order?_of_kind hk, Option.some.injEq]
    cases key.descending <;> simp
  have hmatches : key.matches r s = true ↔ v.compare? w = some .eq := by
    simp only [ByVariable.matches, hv, hw]
    cases v <;> cases w <;> simp [Value.compare?, Value.kind] at hk ⊢
  rw [horder, hmatches]
  exact ⟨fun h => Value.order?_of_compare? h hs, fun h => Value.compare?_of_order? h hb⟩

namespace Distinguishes

variable (h : Distinguishes keys all)

include h

theorem sameKeys_iff {r s : Row} (hr : r ∈ all) (hs : s ∈ all) :
    sameKeys keys r s = true ↔ compareRows keys r s = .eq := by
  rw [sameKeys, List.all_eq_true, compareRows_eq_eq_iff]
  refine forall₂_congr fun key hk => ?_
  obtain ⟨v, w, hv, hw, hkind⟩ := h.uniform.comparable hr hs key hk
  exact matches_iff hv hw hkind (h.bounded r hr key hk v hv)
    (h.separated key hk r hr s hs v hv w hw)

end Distinguishes

theorem leastRow?_isLE (hu : UniformKeys keys all) {rows : List Row} (hm : ∀ r ∈ rows, r ∈ all)
    {key : Row} (h : leastRow? keys rows = some key) :
    ∀ r ∈ rows, (totalOrder keys key r).isLE := by
  cases rows with
  | nil => cases h
  | cons r rows =>
    obtain rfl := Option.some.inj h
    clear h
    induction rows generalizing r with
    | nil =>
      intro t ht
      obtain rfl := List.mem_singleton.mp ht
      exact Std.ReflCmp.isLE_rfl
    | cons s rows ih =>
      have hr : r ∈ all := hm r List.mem_cons_self
      have hs : s ∈ all := hm s (List.mem_cons_of_mem _ List.mem_cons_self)
      rw [List.foldl_cons, hu.compareRows_eq hr hs]
      have hrows : ∀ t ∈ rows, t ∈ all := fun t ht =>
        hm t (List.mem_cons_of_mem _ (List.mem_cons_of_mem _ ht))
      -- whichever of the first two rows goes on, the least row is not after the other one either
      have hnext (next other : Row) (hn : next ∈ all) (hle : (totalOrder keys next other).isLE) :
          ∀ t ∈ next :: other :: rows, (totalOrder keys (rows.foldl
            (fun best s => if (compareRows keys best s).isGT then s else best) next) t).isLE := by
        have hbest := ih next (List.forall_mem_cons.mpr ⟨hn, hrows⟩)
        intro t ht
        rcases List.mem_cons.mp ht with rfl | ht
        · exact hbest _ List.mem_cons_self
        · rcases List.mem_cons.mp ht with rfl | ht
          · exact Std.TransCmp.isLE_trans (hbest next List.mem_cons_self) hle
          · exact hbest t (List.mem_cons_of_mem _ ht)
      intro t ht
      cases hc : totalOrder keys r s with
      | gt =>
        refine hnext s r hs ?_ t ((List.Perm.swap r s rows).mem_iff.mpr ht)
        rw [@Std.OrientedCmp.eq_swap _ (totalOrder keys), hc]
        rfl
      | lt => exact hnext r s hr (by rw [hc]; rfl) t ht
      | eq => exact hnext r s hr (by rw [hc]; rfl) t ht

/-! ### A pass over sorted sources -/

theorem takeWhile_eq_filter {α : Type} {p : α → Bool} {l : List α}
    (h : l.Pairwise fun a b => p b = true → p a = true) : l.takeWhile p = l.filter p := by
  induction l with
  | nil => rfl
  | cons a l ih =>
    obtain ⟨ha, hl⟩ := List.pairwise_cons.mp h
    cases hp : p a with
    | true => simp [hp, ih hl]
    | false =>
      have hnone : l.filter p = [] := by
        rw [List.filter_eq_nil_iff]
        intro b hb hpb
        simp [ha b hb hpb] at hp
      simp [hp, hnone]

theorem dropWhile_eq_filter {α : Type} {p : α → Bool} {l : List α}
    (h : l.Pairwise fun a b => p b = true → p a = true) :
    l.dropWhile p = l.filter (! p ·) := by
  induction l with
  | nil => rfl
  | cons a l ih =>
    obtain ⟨ha, hl⟩ := List.pairwise_cons.mp h
    cases hp : p a with
    | true => simp [hp, ih hl]
    | false =>
      have hall : l.filter (! p ·) = l := by
        rw [List.filter_eq_self]
        intro b hb
        cases hpb : p b with
        | false => rfl
        | true => simp [ha b hb hpb] at hp
      simp [hp, hall]

/-- No row compares less than one before it. -/
def Sorted (keys : List ByVariable) (rows : List Row) : Prop :=
  rows.Pairwise fun r s => compareRows keys s r ≠ .lt

instance (keys : List ByVariable) (rows : List Row) : Decidable (Sorted keys rows) :=
  inferInstanceAs (Decidable (rows.Pairwise fun r s => compareRows keys s r ≠ .lt))

theorem isLE_of_not_lt (hu : UniformKeys keys all) {r s : Row} (hr : r ∈ all) (hs : s ∈ all)
    (h : compareRows keys s r ≠ .lt) : (totalOrder keys r s).isLE := by
  rw [hu.compareRows_eq hs hr] at h
  rw [@Std.OrientedCmp.eq_swap _ (totalOrder keys)]
  cases hc : totalOrder keys s r <;> simp [hc] at h ⊢

/-- Rows in order, none of them before a key. -/
structure StartsAt (keys : List ByVariable) (all : List Row) (key : Row) (rows : List Row) :
    Prop where
  mem : ∀ r ∈ rows, r ∈ all
  sorted : Sorted keys rows
  key_le : ∀ r ∈ rows, (totalOrder keys key r).isLE

namespace StartsAt

variable {key : Row} {source : List Row}

theorem pairwise_sameKeys (hs : StartsAt keys all key source) (h : Distinguishes keys all)
    (hk : key ∈ all) :
    source.Pairwise fun r s => sameKeys keys s key = true → sameKeys keys r key = true := by
  refine hs.sorted.imp_of_mem fun {r s} hr hs' hrs heq => ?_
  have hra := hs.mem r hr
  have hsa := hs.mem s hs'
  rw [h.sameKeys_iff hsa hk, h.uniform.compareRows_eq hsa hk] at heq
  rw [h.sameKeys_iff hra hk, h.uniform.compareRows_eq hra hk]
  have hrk : (totalOrder keys r key).isLE := by
    refine Std.TransCmp.isLE_trans (isLE_of_not_lt h.uniform hra hsa hrs) ?_
    rw [heq]
    rfl
  have hkr := hs.key_le r hr
  rw [@Std.OrientedCmp.eq_swap _ (totalOrder keys)] at hkr
  cases hc : totalOrder keys r key <;> simp [hc] at hrk hkr ⊢

theorem compareRows_key (hs : StartsAt keys all key source) (h : Distinguishes keys all)
    (hk : key ∈ all) {r : Row} (hr : r ∈ source) :
    sameKeys keys r key = (compareRows keys key r == .eq) := by
  have hra := hs.mem r hr
  have hswap := h.uniform.orderedBy.swap key hk r hra
  rw [Bool.eq_iff_iff, h.sameKeys_iff hra hk, hswap, beq_iff_eq]
  cases compareRows keys key r <;> simp

theorem takeWhile_eq_group (hs : StartsAt keys all key source) (h : Distinguishes keys all)
    (hk : key ∈ all) :
    source.takeWhile (fun r => sameKeys keys r key) = group keys key source := by
  rw [takeWhile_eq_filter (hs.pairwise_sameKeys h hk)]
  exact List.filter_congr fun r hr => hs.compareRows_key h hk hr

theorem mem_dropWhile_iff (hs : StartsAt keys all key source) (h : Distinguishes keys all)
    (hk : key ∈ all) {r : Row} : r ∈ source.dropWhile (fun r => sameKeys keys r key) ↔
      r ∈ source ∧ compareRows keys key r = .lt := by
  rw [dropWhile_eq_filter (hs.pairwise_sameKeys h hk), List.mem_filter]
  refine and_congr_right fun hr => ?_
  have hle := hs.key_le r hr
  rw [← h.uniform.compareRows_eq hk (hs.mem r hr)] at hle
  rw [hs.compareRows_key h hk hr]
  cases hc : compareRows keys key r <;> simp [hc] at hle ⊢

/-- The group of a later tuple is in what a pass leaves. -/
theorem group_dropWhile (hs : StartsAt keys all key source) (h : Distinguishes keys all)
    (hk : key ∈ all) {t : Row} (ht : t ∈ all) (hlt : compareRows keys key t = .lt) :
    group keys t (source.dropWhile fun r => sameKeys keys r key) = group keys t source := by
  have hnone : group keys t (source.takeWhile fun r => sameKeys keys r key) = [] := by
    rw [group, List.filter_eq_nil_iff]
    intro r hr heq
    rw [hs.takeWhile_eq_group h hk] at hr
    obtain ⟨hr, hkr⟩ := List.mem_filter.mp hr
    have hra := hs.mem r hr
    rw [beq_iff_eq, h.uniform.compareRows_eq ht hra] at heq
    rw [beq_iff_eq, h.uniform.compareRows_eq hk hra] at hkr
    rw [h.uniform.compareRows_eq hk ht, Std.TransCmp.congr_right heq, hkr] at hlt
    cases hlt
  calc group keys t (source.dropWhile fun r => sameKeys keys r key)
      = group keys t (source.takeWhile fun r => sameKeys keys r key) ++
          group keys t (source.dropWhile fun r => sameKeys keys r key) := by
        rw [hnone, List.nil_append]
    _ = group keys t source := by
        rw [group, group, ← List.filter_append, List.takeWhile_append_dropWhile]
        rfl

end StartsAt

/-! ### The tuples of keys -/

/-- One row for each tuple of keys of the sources, in the order of the keys. -/
structure Tuples (keys : List ByVariable) (sources : List (List Row)) (tuples : List Row) :
    Prop where
  ascending : tuples.Pairwise fun t u => compareRows keys t u = .lt
  mem : ∀ t ∈ tuples, t ∈ sources.flatten
  covers : ∀ r ∈ sources.flatten, ∃ t ∈ tuples, compareRows keys t r = .eq

variable {sources : List (List Row)} {passes : List (List (List Row))}

theorem startsAt_of_leastRow? (hu : UniformKeys keys all)
    (hm : ∀ source ∈ sources, ∀ r ∈ source, r ∈ all) (hs : ∀ source ∈ sources, Sorted keys source)
    {key : Row} (hk : leastRow? keys (sources.filterMap (·.head?)) = some key) :
    ∀ source ∈ sources, StartsAt keys all key source := by
  intro source hsource
  refine ⟨hm source hsource, hs source hsource, ?_⟩
  have hheads : ∀ r ∈ sources.filterMap (·.head?), r ∈ all := by
    intro r hr
    obtain ⟨source, hsource, hh⟩ := List.mem_filterMap.mp hr
    exact hm source hsource r (List.mem_of_head? hh)
  cases source with
  | nil => simp
  | cons head rest =>
    have hhead : (totalOrder keys key head).isLE :=
      leastRow?_isLE hu hheads hk head (List.mem_filterMap.mpr ⟨_, hsource, rfl⟩)
    have hrest := (List.pairwise_cons.mp (hs _ hsource)).1
    intro r hr
    rcases List.mem_cons.mp hr with rfl | hr
    · exact hhead
    · refine Std.TransCmp.isLE_trans hhead (isLE_of_not_lt hu ?_ ?_ (hrest r hr))
      · exact hm _ hsource head List.mem_cons_self
      · exact hm _ hsource r (List.mem_cons_of_mem _ hr)

theorem mem_remaining_iff (hd : Distinguishes keys all) {key : Row} (hk : key ∈ all)
    (hs : ∀ source ∈ sources, StartsAt keys all key source) {r : Row} :
    r ∈ (remaining keys key sources).flatten ↔
      r ∈ sources.flatten ∧ compareRows keys key r = .lt := by
  simp only [remaining, List.mem_flatten, List.mem_map]
  constructor
  · rintro ⟨_, ⟨source, hsource, rfl⟩, hr⟩
    obtain ⟨hr, hlt⟩ := ((hs source hsource).mem_dropWhile_iff hd hk).mp hr
    exact ⟨⟨source, hsource, hr⟩, hlt⟩
  · rintro ⟨⟨source, hsource, hr⟩, hlt⟩
    exact ⟨_, ⟨source, hsource, rfl⟩, ((hs source hsource).mem_dropWhile_iff hd hk).mpr ⟨hr, hlt⟩⟩

/-- The key of a pass comes before the tuples of what the pass leaves. -/
theorem Tuples.cons (hd : Distinguishes keys all) {key : Row} (hk : key ∈ all)
    (hkey : key ∈ sources.flatten) (hs : ∀ source ∈ sources, StartsAt keys all key source)
    {tuples : List Row} (h : Tuples keys (remaining keys key sources) tuples) :
    Tuples keys sources (key :: tuples) := by
  have hlater : ∀ t ∈ tuples, t ∈ sources.flatten ∧ compareRows keys key t = .lt :=
    fun t ht => (mem_remaining_iff hd hk hs).mp (h.mem t ht)
  refine ⟨?ascending, ?mem, ?covers⟩
  case ascending => exact List.pairwise_cons.mpr ⟨fun t ht => (hlater t ht).2, h.ascending⟩
  case mem => exact List.forall_mem_cons.mpr ⟨hkey, fun t ht => (hlater t ht).1⟩
  case covers =>
    intro r hr
    obtain ⟨source, hsource, hrs⟩ := List.mem_flatten.mp hr
    have hle := (hs source hsource).key_le r hrs
    rw [← hd.uniform.compareRows_eq hk ((hs source hsource).mem r hrs)] at hle
    cases hc : compareRows keys key r with
    | eq => exact ⟨key, List.mem_cons_self, hc⟩
    | lt =>
      obtain ⟨t, ht, heq⟩ := h.covers r ((mem_remaining_iff hd hk hs).mpr ⟨hr, hc⟩)
      exact ⟨t, List.mem_cons_of_mem _ ht, heq⟩
    | gt => simp [hc] at hle

/-- The passes over sorted sources take the groups of the tuples one after the other. -/
theorem Passes.exists_tuples (h : Passes keys sources passes) (hd : Distinguishes keys all)
    (hm : ∀ source ∈ sources, ∀ r ∈ source, r ∈ all)
    (hs : ∀ source ∈ sources, Sorted keys source) :
    ∃ tuples, Tuples keys sources tuples ∧
      passes = tuples.map fun t => sources.map (group keys t) := by
  induction h with
  | @done sources hk =>
    have hnil := List.flatten_eq_nil_iff.mpr (heads_eq_nil_iff.mp (leastRow?_eq_none_iff.mp hk))
    exact ⟨[], ⟨.nil, by simp, by simp [hnil]⟩, rfl⟩
  | @pass sources key passes hk _ ih =>
    obtain ⟨rest, hkey⟩ := exists_head_of_leastRow? hk
    have hka : key ∈ all := hm _ hkey key List.mem_cons_self
    have hstart := startsAt_of_leastRow? hd.uniform hm hs hk
    have hleft : ∀ run ∈ remaining keys key sources,
        (∀ r ∈ run, r ∈ all) ∧ Sorted keys run := by
      intro run hrun
      obtain ⟨source, hsource, rfl⟩ := List.mem_map.mp hrun
      have hsub : (source.dropWhile fun r => sameKeys keys r key).Sublist source :=
        List.dropWhile_sublist _
      exact ⟨fun r hr => hm source hsource r (hsub.mem hr), (hs source hsource).sublist hsub⟩
    obtain ⟨tuples, ht, rfl⟩ := ih (fun run hr => (hleft run hr).1) fun run hr => (hleft run hr).2
    have hkf : key ∈ sources.flatten := List.mem_flatten.mpr ⟨_, hkey, List.mem_cons_self⟩
    refine ⟨key :: tuples, ht.cons hd hka hkf hstart, ?_⟩
    have htaken : taken keys key sources = sources.map (group keys key) :=
      List.map_congr_left fun source hsource => (hstart source hsource).takeWhile_eq_group hd hka
    rw [htaken, List.map_cons]
    congr 1
    refine List.map_congr_left fun t htm => ?_
    obtain ⟨htf, hlt⟩ := (mem_remaining_iff hd hka hstart).mp (ht.mem t htm)
    obtain ⟨source, hsource, htf⟩ := List.mem_flatten.mp htf
    rw [remaining, List.map_map]
    exact List.map_congr_left fun source' hsource' =>
      (hstart source' hsource').group_dropWhile hd hka (hm source hsource t htf) hlt

/-! ### The merged rows -/

def contributions (keys : List ByVariable) (sources : List (List Row)) (t : Row) (i : Nat) :
    List Row :=
  sources.filterMap fun source => rowAt? i (group keys t source)

/-- The rows of a tuple: as many as the source with most of them has. Each has the cells of the rows
that the sources give to its position, and where several have a column, that of the last one. -/
structure Matched (keys : List ByVariable) (sources : List (List Row)) (t : Row)
    (block : List Row) : Prop where
  length_le : ∀ source ∈ sources, (group keys t source).length ≤ block.length
  length_eq : ∃ source ∈ sources, block.length = (group keys t source).length
  maps : ∀ row ∈ block, row.IsMap
  cells : ∀ (i : Nat) row, block[i]? = some row → ∀ column,
    row.cell? column = (contributions keys sources t i).reverse.findSome? (·.cell? column)
  values : ∀ (i : Nat) row, block[i]? = some row → ∀ name,
    row.get? name = (contributions keys sources t i).reverse.findSome? (·.get? name)

def columnsOf (rows : List Row) : List String :=
  rows.flatMap fun r => r.map (·.1)

/-- Sources that can be merged by keys. -/
structure Mergeable (keys : List ByVariable) (sources : List (List Row)) : Prop where
  distinguishes : Distinguishes keys sources.flatten
  spelled : Row.SpelledAlike (columnsOf sources.flatten)
  maps : ∀ r ∈ sources.flatten, r.IsMap
  sorted : ∀ source ∈ sources, Sorted keys source

theorem Mergeable.matched (h : Mergeable keys sources) {t : Row} (hne : sources ≠ []) :
    Matched keys sources t (mergeGroup (sources.map (group keys t))) := by
  have hrow {i : Nat} {row : Row} (hi : (mergeGroup (sources.map (group keys t)))[i]? = some row) :
      row = joinRows (contributions keys sources t i) := by
    obtain ⟨hlt, -⟩ := List.getElem?_eq_some_iff.mp hi
    rw [mergeGroup_getElem? hlt, List.filterMap_map] at hi
    exact (Option.some.inj hi).symm
  have hmem {i : Nat} : ∀ r ∈ contributions keys sources t i, r ∈ sources.flatten := by
    intro r hr
    obtain ⟨source, hsource, hr⟩ := List.mem_filterMap.mp hr
    exact List.mem_flatten.mpr ⟨source, hsource, (List.mem_filter.mp (mem_of_rowAt? hr)).1⟩
  refine ⟨?length_le, ?length_eq, ?maps, ?cells, ?values⟩
  case length_le =>
    intro source hsource
    exact length_le_mergeGroup (List.mem_map_of_mem hsource)
  case length_eq =>
    have hgroups : sources.map (group keys t) ≠ [] := mt List.map_eq_nil_iff.mp hne
    obtain ⟨run, hrun, hlen⟩ := exists_length_eq_mergeGroup hgroups
    obtain ⟨source, hsource, rfl⟩ := List.mem_map.mp hrun
    exact ⟨source, hsource, hlen⟩
  case maps =>
    intro row hm
    obtain ⟨i, -, rfl⟩ := List.mem_map.mp hm
    exact isMap_joinRows _
  case cells =>
    intro i row hi column
    rw [hrow hi]
    exact cell?_joinRows (fun r hr => h.maps r (hmem r hr)) column
  case values =>
    intro i row hi name
    rw [hrow hi]
    refine get?_joinRows h.spelled (fun r hr => h.maps r (hmem r hr)) (fun r hr cell hc => ?_) name
    exact List.mem_flatMap.mpr ⟨r, hmem r hr, List.mem_map_of_mem hc⟩

/-- A merge of sorted sources by keys gives the rows of each tuple, the tuples in their order. -/
theorem merge_matches (hk : keys ≠ []) (h : Mergeable keys sources) :
    ∃ tuples block, Tuples keys sources tuples ∧ merge keys sources = tuples.flatMap block ∧
      ∀ t ∈ tuples, Matched keys sources t (block t) := by
  have hm : ∀ source ∈ sources, ∀ r ∈ source, r ∈ sources.flatten := fun source hsource r hr =>
    List.mem_flatten.mpr ⟨source, hsource, hr⟩
  have hb : Bounded keys sources := fun source hsource r hr =>
    h.distinguishes.bounded r (hm source hsource r hr)
  obtain ⟨passes, hp, hmerge⟩ := exists_passes hb (Nat.le_refl _)
  obtain ⟨tuples, ht, rfl⟩ := hp.exists_tuples h.distinguishes hm h.sorted
  refine ⟨tuples, fun t => mergeGroup (sources.map (group keys t)), ht, ?_, fun t htm => ?_⟩
  · rw [merge, if_neg (by simpa using hk), hmerge, List.flatMap_map]
  · refine h.matched ?_
    rintro rfl
    exact absurd (ht.mem t htm) (by simp)

/-- Sources in descending order, with a missing key, repeated keys on both sides and an empty source
between them. -/
def ledgers : List (List Row) :=
  [[[("id", .number 2.0), ("x", .text "a")], [("id", .number 2.0), ("x", .text "b")],
      [("id", .missing), ("x", .text "c")]],
    [],
    [[("id", .number 2.5), ("y", .number 1.0)], [("id", .number 2.0), ("x", .text "d")],
      [("id", .missing), ("y", .number 4.0)], [("id", .missing), ("y", .number 5.0)]]]

theorem merge_matches_ledgers : Mergeable [⟨"id", true⟩] ledgers ∧
    ∃ tuples block, Tuples [⟨"id", true⟩] ledgers tuples ∧
      merge [⟨"id", true⟩] ledgers = tuples.flatMap block ∧
      ∀ t ∈ tuples, Matched [⟨"id", true⟩] ledgers t (block t) := by
  have h : Mergeable [⟨"id", true⟩] ledgers := by
    refine ⟨⟨by decide +kernel, by decide +kernel, by decide +kernel⟩, ?_, by decide +kernel,
      by decide +kernel⟩
    have hcolumns : ∀ c ∈ columnsOf ledgers.flatten, c = "id" ∨ c = "x" ∨ c = "y" := by decide
    intro a ha b hb hab
    rcases hcolumns a ha with rfl | rfl | rfl <;> rcases hcolumns b hb with rfl | rfl | rfl <;>
      first
      | rfl
      | simp [Text.upper, ← String.toList_inj] at hab
  exact ⟨h, merge_matches (by simp) h⟩

end StepLang.DataStep
