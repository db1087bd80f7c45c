import StepLang.DataStep.Input
import StepLang.Proofs.RowOrder

/-! # The passes of a merge

A merge by keys takes the rows of one group from all sources in each pass. As long as no key is
infinite, every pass takes a row, so the merge comes to an end, and every row of every source is
taken once, in the order of its source. This needs no order of the sources and no keys in the rows.
-/

namespace StepLang.DataStep

variable {keys : List ByVariable} {sources : List (List Row)} {passes : List (List (List Row))}

/-! ### One pass -/

theorem leastRow?_eq_none_iff {rows : List Row} : leastRow? keys rows = none ↔ rows = [] := by
  cases rows <;> simp [leastRow?]

theorem mem_of_leastRow? {rows : List Row} {key : Row} (h : leastRow? keys rows = some key) :
    key ∈ rows := by
  cases rows with
  | nil => cases h
  | cons r rows =>
    obtain rfl := Option.some.inj h
    clear h
    induction rows generalizing r with
    | nil => exact List.mem_cons_self
    | cons s rows ih =>
      rw [List.foldl_cons]
      split
      · exact List.mem_cons_of_mem _ (ih s)
      · rcases List.mem_cons.mp (ih r) with h | h
        · rw [h]
          exact List.mem_cons_self
        · exact List.mem_cons_of_mem _ (List.mem_cons_of_mem _ h)

theorem heads_eq_nil_iff : sources.filterMap (·.head?) = [] ↔ ∀ source ∈ sources, source = [] := by
  simp [List.filterMap_eq_nil_iff]

theorem exists_head_of_leastRow? {key : Row}
    (h : leastRow? keys (sources.filterMap (·.head?)) = some key) :
    ∃ rest, key :: rest ∈ sources := by
  obtain ⟨source, hs, hk⟩ := List.mem_filterMap.mp (mem_of_leastRow? h)
  obtain ⟨rest, rfl⟩ := List.head?_eq_some_iff.mp hk
  exact ⟨rest, hs⟩

def taken (keys : List ByVariable) (key : Row) (sources : List (List Row)) : List (List Row) :=
  sources.map (·.takeWhile fun r => sameKeys keys r key)

def remaining (keys : List ByVariable) (key : Row) (sources : List (List Row)) : List (List Row) :=
  sources.map (·.dropWhile fun r => sameKeys keys r key)

theorem mergeGroups_of_none (h : leastRow? keys (sources.filterMap (·.head?)) = none)
    (bound : Nat) : mergeGroups keys bound sources = [] := by
  cases bound with
  | zero => rfl
  | succ bound => simp only [mergeGroups, h]

theorem mergeGroups_of_some {key : Row}
    (h : leastRow? keys (sources.filterMap (·.head?)) = some key) (bound : Nat) :
    mergeGroups keys (bound + 1) sources = mergeGroup (taken keys key sources) ++
      mergeGroups keys bound (remaining keys key sources) := by
  simp only [mergeGroups, h]
  rfl

theorem exists_taken_ne_nil {key : Row} (hb : key.KeysBounded keys)
    (h : leastRow? keys (sources.filterMap (·.head?)) = some key) :
    ∃ run ∈ taken keys key sources, run ≠ [] := by
  obtain ⟨rest, hs⟩ := exists_head_of_leastRow? h
  refine ⟨_, List.mem_map_of_mem hs, ?_⟩
  simp [sameKeys_self hb]

theorem length_taken_add_remaining (key : Row) (sources : List (List Row)) :
    (taken keys key sources).flatten.length + (remaining keys key sources).flatten.length =
      sources.flatten.length := by
  induction sources with
  | nil => rfl
  | cons source sources ih =>
    have hs : (source.takeWhile fun r => sameKeys keys r key).length +
        (source.dropWhile fun r => sameKeys keys r key).length = source.length := by
      rw [← List.length_append, List.takeWhile_append_dropWhile]
    simp only [taken, remaining, List.map_cons, List.flatten_cons, List.length_append] at ih ⊢
    omega

theorem length_remaining_lt {key : Row} (hb : key.KeysBounded keys)
    (h : leastRow? keys (sources.filterMap (·.head?)) = some key) :
    (remaining keys key sources).flatten.length < sources.flatten.length := by
  obtain ⟨run, hm, hne⟩ := exists_taken_ne_nil hb h
  have hpos : 0 < (taken keys key sources).flatten.length := by
    rw [List.length_pos_iff]
    intro hnil
    exact hne (List.flatten_eq_nil_iff.mp hnil run hm)
  have := @length_taken_add_remaining keys key sources
  omega

/-! ### All passes -/

/-- The runs of rows that the passes of a merge take, until no source has a row left. -/
inductive Passes (keys : List ByVariable) : List (List Row) → List (List (List Row)) → Prop where

  | done {sources : List (List Row)} :
      leastRow? keys (sources.filterMap (·.head?)) = none → Passes keys sources []

  | pass {sources : List (List Row)} {key : Row} {passes : List (List (List Row))} :
      leastRow? keys (sources.filterMap (·.head?)) = some key →
      Passes keys (remaining keys key sources) passes →
      Passes keys sources (taken keys key sources :: passes)

def Bounded (keys : List ByVariable) (sources : List (List Row)) : Prop :=
  ∀ source ∈ sources, ∀ r ∈ source, r.KeysBounded keys

instance (keys : List ByVariable) (sources : List (List Row)) : Decidable (Bounded keys sources) :=
  inferInstanceAs (Decidable (∀ source ∈ sources, ∀ r ∈ source, r.KeysBounded keys))

theorem Bounded.key (hb : Bounded keys sources) {key : Row}
    (h : leastRow? keys (sources.filterMap (·.head?)) = some key) : key.KeysBounded keys := by
  obtain ⟨rest, hs⟩ := exists_head_of_leastRow? h
  exact hb _ hs key List.mem_cons_self

theorem Bounded.remaining (hb : Bounded keys sources) (key : Row) :
    Bounded keys (remaining keys key sources) := by
  intro run hrun r hr
  obtain ⟨source, hs, rfl⟩ := List.mem_map.mp hrun
  exact hb source hs r ((List.dropWhile_sublist _).mem hr)

/-- Every pass takes a row, so as many passes as there are rows are enough. -/
theorem exists_passes (hb : Bounded keys sources) {bound : Nat}
    (hn : sources.flatten.length ≤ bound) :
    ∃ passes, Passes keys sources passes ∧
      mergeGroups keys bound sources = passes.flatMap mergeGroup := by
  induction bound generalizing sources with
  | zero =>
    have hnil : ∀ source ∈ sources, source = [] :=
      List.flatten_eq_nil_iff.mp (List.eq_nil_of_length_eq_zero (Nat.le_zero.mp hn))
    exact ⟨[], .done (leastRow?_eq_none_iff.mpr (heads_eq_nil_iff.mpr hnil)), rfl⟩
  | succ bound ih =>
    cases h : leastRow? keys (sources.filterMap (·.head?)) with
    | none => exact ⟨[], .done h, mergeGroups_of_none h _⟩
    | some key =>
      have hlt := length_remaining_lt (hb.key h) h
      obtain ⟨passes, hp, hm⟩ := ih (hb.remaining key) (by omega)
      refine ⟨_, .pass h hp, ?_⟩
      rw [mergeGroups_of_some h, hm]
      rfl

namespace Passes

theorem length_taken (h : Passes keys sources passes) :
    ∀ runs ∈ passes, runs.length = sources.length := by
  induction h with
  | done => simp
  | pass _ _ ih =>
    intro runs hr
    rcases List.mem_cons.mp hr with rfl | hr
    · exact List.length_map _
    · exact (ih runs hr).trans (List.length_map _)

theorem progress (h : Passes keys sources passes) (hb : Bounded keys sources) :
    ∀ runs ∈ passes, ∃ run ∈ runs, run ≠ [] := by
  induction h with
  | done => simp
  | pass hk _ ih =>
    intro runs hr
    rcases List.mem_cons.mp hr with rfl | hr
    · exact exists_taken_ne_nil (hb.key hk) hk
    · exact ih (hb.remaining _) runs hr

/-- What the passes take from a source is the source. -/
theorem flatMap_run (h : Passes keys sources passes) {j : Nat} {source : List Row}
    (hj : sources[j]? = some source) :
    passes.flatMap (fun runs => runs[j]?.getD []) = source := by
  induction h generalizing source with
  | done hk =>
    have hnil := heads_eq_nil_iff.mp (leastRow?_eq_none_iff.mp hk)
    exact (hnil source (List.mem_of_getElem? hj)).symm
  | @pass sources key passes hk _ ih =>
    have hrest : (remaining keys key sources)[j]? =
        some (source.dropWhile fun r => sameKeys keys r key) := by
      simp [remaining, hj]
    rw [List.flatMap_cons, ih hrest]
    simp [taken, hj]

end Passes

/-! ### The rows of a pass -/

/-- The row that a source gives to a position of a group: its last row if it has too few. -/
def rowAt? (i : Nat) (run : List Row) : Option Row :=
  run[i]? <|> run.getLast?

theorem mem_of_rowAt? {i : Nat} {run : List Row} {r : Row} (h : rowAt? i run = some r) :
    r ∈ run := by
  unfold rowAt? at h
  cases hi : run[i]? with
  | some s =>
    rw [hi] at h
    obtain rfl := Option.some.inj h
    exact List.mem_of_getElem? hi
  | none =>
    rw [hi] at h
    exact List.mem_of_getLast? h

theorem foldl_max (runs : List (List Row)) (n : Nat) :
    (runs.map List.length).foldl max n = max n ((runs.map List.length).foldl max 0) := by
  induction runs generalizing n with
  | nil => simp
  | cons run runs ih =>
    rw [List.map_cons, List.foldl_cons, List.foldl_cons, ih, ih (max 0 run.length)]
    omega

@[simp] theorem length_mergeGroup_nil : (mergeGroup []).length = 0 := rfl

@[simp] theorem length_mergeGroup_cons (run : List Row) (runs : List (List Row)) :
    (mergeGroup (run :: runs)).length = max run.length (mergeGroup runs).length := by
  simp only [mergeGroup, List.length_map, List.length_range, List.map_cons, List.foldl_cons]
  rw [foldl_max]
  omega

theorem length_le_mergeGroup {run : List Row} {runs : List (List Row)} (h : run ∈ runs) :
    run.length ≤ (mergeGroup runs).length := by
  induction runs with
  | nil => cases h
  | cons run' runs ih =>
    rw [length_mergeGroup_cons]
    rcases List.mem_cons.mp h with rfl | h
    · omega
    · have := ih h
      omega

theorem exists_length_eq_mergeGroup {runs : List (List Row)} (h : runs ≠ []) :
    ∃ run ∈ runs, (mergeGroup runs).length = run.length := by
  induction runs with
  | nil => exact absurd rfl h
  | cons run runs ih =>
    rw [length_mergeGroup_cons]
    rcases Nat.le_total (mergeGroup runs).length run.length with hle | hle
    · exact ⟨run, List.mem_cons_self, by omega⟩
    · by_cases hr : runs = []
      · subst hr
        exact ⟨run, List.mem_cons_self, by simp⟩
      · obtain ⟨longest, hm, hlen⟩ := ih hr
        exact ⟨longest, List.mem_cons_of_mem _ hm, by omega⟩

theorem length_mergeGroup_le (runs : List (List Row)) :
    (mergeGroup runs).length ≤ runs.flatten.length := by
  induction runs with
  | nil => simp
  | cons run runs ih =>
    rw [length_mergeGroup_cons, List.flatten_cons, List.length_append]
    omega

theorem mergeGroup_getElem? {runs : List (List Row)} {i : Nat} (h : i < (mergeGroup runs).length) :
    (mergeGroup runs)[i]? = some (joinRows (runs.filterMap (rowAt? i))) := by
  have hi : i < (runs.map List.length).foldl max 0 := by
    simpa [mergeGroup] using h
  unfold mergeGroup
  rw [List.getElem?_map, List.getElem?_range hi]
  rfl

/-- A row of a run takes part in the row of its position, between the rows of the sources before it
and those of the sources after it. -/
theorem mergeGroup_takes_part {runs : List (List Row)} {j p : Nat} {run : List Row} {r : Row}
    (hj : runs[j]? = some run) (hp : run[p]? = some r) :
    (mergeGroup runs)[p]? = some (joinRows ((runs.take j).filterMap (rowAt? p) ++
      r :: (runs.drop (j + 1)).filterMap (rowAt? p))) := by
  obtain ⟨hjlt, hrun⟩ := List.getElem?_eq_some_iff.mp hj
  obtain ⟨hplt, -⟩ := List.getElem?_eq_some_iff.mp hp
  have hlt : p < (mergeGroup runs).length :=
    Nat.lt_of_lt_of_le hplt (length_le_mergeGroup (List.mem_of_getElem? hj))
  have hsplit : runs = runs.take j ++ run :: runs.drop (j + 1) := by
    rw [← hrun, List.getElem_cons_drop, List.take_append_drop]
  have hr : rowAt? p run = some r := by simp [rowAt?, hp]
  have hparts : runs.filterMap (rowAt? p) = (runs.take j).filterMap (rowAt? p) ++
      r :: (runs.drop (j + 1)).filterMap (rowAt? p) := by
    calc runs.filterMap (rowAt? p)
        = (runs.take j ++ run :: runs.drop (j + 1)).filterMap (rowAt? p) := by rw [← hsplit]
      _ = _ := by rw [List.filterMap_append, List.filterMap_cons_some hr]
  rw [mergeGroup_getElem? hlt, hparts]

namespace Passes

theorem length_le (h : Passes keys sources passes) :
    ∀ source ∈ sources, source.length ≤ (passes.flatMap mergeGroup).length := by
  induction h with
  | done hk =>
    intro source hs
    rw [heads_eq_nil_iff.mp (leastRow?_eq_none_iff.mp hk) source hs]
    exact Nat.zero_le _
  | @pass sources key passes _ _ ih =>
    intro source hs
    have htaken := @length_le_mergeGroup _ (taken keys key sources) (List.mem_map_of_mem hs)
    have hrest := ih _ (List.mem_map_of_mem hs)
    rw [← List.takeWhile_append_dropWhile (p := fun r => sameKeys keys r key) (l := source),
      List.length_append, List.flatMap_cons, List.length_append]
    omega

/-- No pass gives more rows than it takes. -/
theorem length_flatMap_le (h : Passes keys sources passes) :
    (passes.flatMap mergeGroup).length ≤ sources.flatten.length := by
  induction h with
  | done => exact Nat.zero_le _
  | @pass sources key passes _ _ ih =>
    have hsum := @length_taken_add_remaining keys key sources
    have hgroup := length_mergeGroup_le (taken keys key sources)
    rw [List.flatMap_cons, List.length_append]
    omega

end Passes

/-! ### The merge -/

/-- What passes make of the rows of the sources: each pass takes a row, what they take from a source
is the source in its order, and the rows of a run take part in the rows that their pass gives, one
by one. -/
structure Conserved (sources : List (List Row)) (passes : List (List (List Row)))
    (output : List Row) : Prop where
  output_eq : output = passes.flatMap mergeGroup
  progress : ∀ runs ∈ passes, runs.length = sources.length ∧ ∃ run ∈ runs, run ≠ []
  runs_eq : ∀ (j : Nat) source, sources[j]? = some source →
    passes.flatMap (fun runs => runs[j]?.getD []) = source
  takes_part : ∀ runs ∈ passes, ∀ (j p : Nat) run r, runs[j]? = some run → run[p]? = some r →
    (mergeGroup runs)[p]? = some (joinRows ((runs.take j).filterMap (rowAt? p) ++
      r :: (runs.drop (j + 1)).filterMap (rowAt? p)))
  longest_le : ∀ source ∈ sources, source.length ≤ output.length
  le_total : output.length ≤ sources.flatten.length

/-- A merge by keys comes to an end and loses no row, whether its sources are sorted or not. -/
theorem merge_conserves (hk : keys ≠ []) (hb : Bounded keys sources) :
    ∃ passes, Passes keys sources passes ∧ Conserved sources passes (merge keys sources) := by
  obtain ⟨passes, hp, hm⟩ := exists_passes hb (Nat.le_refl _)
  have hmerge : merge keys sources = passes.flatMap mergeGroup := by
    rw [merge, if_neg (by simpa using hk), hm]
  refine ⟨passes, hp, ?_⟩
  rw [hmerge]
  exact {
    output_eq := rfl
    progress := fun runs hr => ⟨hp.length_taken runs hr, hp.progress hb runs hr⟩
    runs_eq := fun j source hj => hp.flatMap_run hj
    takes_part := fun runs _ j p run r hj hr => mergeGroup_takes_part hj hr
    longest_le := hp.length_le
    le_total := hp.length_flatMap_le }

/-- Rows in no order, of which one lacks the key and one has a text for it. -/
def strayRows : List (List Row) :=
  [[[("id", .number 2.0), ("x", .text "a")], [("x", .text "b")], [("id", .text "c")],
      [("id", .number 1.0)]],
    [], [[("id", .missing), ("y", .number 4.0)], [("id", .number 2.0)]]]

theorem merge_conserves_strayRows : Bounded [⟨"id", true⟩] strayRows ∧
    ∃ passes, Passes [⟨"id", true⟩] strayRows passes ∧
      Conserved strayRows passes (merge [⟨"id", true⟩] strayRows) := by
  have hb : Bounded [⟨"id", true⟩] strayRows := by decide +kernel
  exact ⟨hb, merge_conserves (by simp) hb⟩

end StepLang.DataStep
