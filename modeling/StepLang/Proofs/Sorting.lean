import StepLang.Sorting

/-! # Sorting invents nothing

Whatever the comparison is, also one that is no order, every element of the sorted list is one of
the list that was sorted.
-/

namespace StepLang.Sorting

variable {α : Type} (less : α → α → Bool)

/-! ### Merging -/

/-- What is taken comes from the two lists, and what is left of each from that list. -/
theorem takeMerged_subset (count : Nat) (left right : List α) :
    (takeMerged less count left right).1 ⊆ left ++ right ∧
      (takeMerged less count left right).2.1 ⊆ left ∧
      (takeMerged less count left right).2.2 ⊆ right := by
  fun_induction takeMerged less count left right with
  | case1 count a left b right hb taken rests hr ih =>
    rw [hr] at ih
    grind
  | case2 count a left b right hb taken rests hr ih =>
    rw [hr] at ih
    grind
  | case3 => simp

theorem takeMergedBack_subset (count : Nat) (left right : List α) :
    (takeMergedBack less count left right).1 ⊆ left ++ right ∧
      (takeMergedBack less count left right).2.1 ⊆ left ∧
      (takeMergedBack less count left right).2.2 ⊆ right := by
  obtain ⟨ht, hr, hl⟩ :=
    takeMerged_subset (fun a b => less b a) count right.reverse left.reverse
  refine ⟨fun a ha => ?_, fun a ha => List.mem_reverse.mp (hl ha),
    fun a ha => List.mem_reverse.mp (hr ha)⟩
  have := ht ha
  simpa [or_comm] using this

theorem mergeFront_subset (left right : List α) : mergeFront less left right ⊆ left ++ right := by
  obtain ⟨ht, hl, hr⟩ := takeMerged_subset less (left.length + right.length) left right
  intro a ha
  simp only [mergeFront, List.mem_append] at ha
  rcases ha with (ha | ha) | ha
  · exact ht ha
  · exact List.mem_append_left _ (hl ha)
  · exact List.mem_append_right _ (hr ha)

theorem mergeBack_subset (left right : List α) : mergeBack less left right ⊆ left ++ right := by
  obtain ⟨ht, hl, hr⟩ := takeMergedBack_subset less (left.length + right.length) left right
  intro a ha
  simp only [mergeBack, List.mem_append, List.mem_reverse] at ha
  rcases ha with (ha | ha) | ha
  · exact List.mem_append_left _ (hl ha)
  · exact List.mem_append_right _ (hr ha)
  · exact ht ha

theorem merge_subset (left right : List α) : merge less left right ⊆ left ++ right := by
  unfold merge
  split
  · exact mergeFront_subset less left right
  · exact mergeBack_subset less left right

theorem mergeBothEnds_subset (left right : List α) :
    mergeBothEnds less left right ⊆ left ++ right := by
  obtain ⟨ht, hl, hr⟩ := takeMerged_subset less left.length left right
  obtain ⟨hb, -, -⟩ := takeMergedBack_subset less left.length left right
  simp only [mergeBothEnds]
  split
  · intro a ha
    simp only [List.mem_append, List.mem_reverse] at ha
    rcases ha with ((ha | ha) | ha) | ha
    · exact ht ha
    · exact List.mem_append_left _ (hl (List.mem_of_mem_take ha))
    · exact List.mem_append_right _ (hr (List.mem_of_mem_take ha))
    · exact hb ha
  · exact mergeFront_subset less left right

/-! ### Short lists -/

theorem insertSorted_subset (a : α) (as : List α) : insertSorted less a as ⊆ a :: as := by
  induction as with
  | nil => simp [insertSorted]
  | cons b bs ih =>
    unfold insertSorted
    split
    · intro c hc
      rcases List.mem_cons.mp hc with rfl | hc
      · simp
      · have := ih hc
        simp only [List.mem_cons] at this ⊢
        exact this.imp_right Or.inr
    · exact fun _ h => h

theorem insertAll_subset (sorted as : List α) : insertAll less sorted as ⊆ sorted ++ as := by
  have h : ∀ (l : List α), as.foldl (fun l a => insertSorted less a l) l ⊆ l ++ as := by
    induction as with
    | nil => simp
    | cons a as ih =>
      intro l b hb
      rcases List.mem_append.mp (ih _ hb) with hb | hb
      · rcases List.mem_cons.mp (insertSorted_subset less a l hb) with rfl | hb
        · simp
        · exact List.mem_append_left _ hb
      · simp [hb]
  intro a ha
  have := h _ (List.mem_reverse.mp ha)
  simpa using this

theorem insertionSort_subset (as : List α) : insertionSort less as ⊆ as :=
  insertAll_subset less [] as

theorem sortFour_subset (a b c d : α) : sortFour less a b c d ⊆ [a, b, c, d] := by
  simp only [sortFour, sortTwo]
  grind

theorem sortFromFour_subset (as : List α) : sortFromFour less as ⊆ as := by
  unfold sortFromFour
  split
  · next a b c d as =>
    intro x hx
    rcases List.mem_append.mp (insertAll_subset less _ as hx) with hx | hx
    · exact List.mem_append_left as (sortFour_subset less a b c d hx)
    · simp [hx]
  · exact insertionSort_subset less _

theorem sortSmall_subset (as : List α) : sortSmall less as ⊆ as := by
  intro a ha
  have hs : ∀ l : List α,
      (if fourLimit ≤ as.length then sortFromFour less else insertionSort less) l ⊆ l := by
    intro l
    split
    · exact sortFromFour_subset less l
    · exact insertionSort_subset less l
  rcases List.mem_append.mp (mergeBothEnds_subset less _ _ ha) with ha | ha
  · exact List.mem_of_mem_take (hs _ ha)
  · exact List.mem_of_mem_drop (hs _ ha)

/-! ### Runs -/

theorem headRun_subset (as : List α) : headRun less as ⊆ as := by
  unfold headRun
  split
  · intro x hx
    simp only at hx
    split at hx
    · exact List.mem_of_mem_take (List.mem_reverse.mp hx)
    · exact List.mem_of_mem_take hx
  · exact fun _ h => h

theorem nextRun_subset (eager : Bool) (least : Nat) (as : List α) :
    (nextRun less eager least as).items ⊆ as := by
  simp only [nextRun]
  split
  · exact headRun_subset less as
  · split
    · exact fun x hx => List.mem_of_mem_take (sortSmall_subset less _ hx)
    · exact List.take_subset _ _

theorem splitRuns_subset (eager : Bool) (least bound : Nat) (as : List α) :
    ∀ run ∈ splitRuns less eager least bound as, run.items ⊆ as := by
  induction bound generalizing as with
  | zero => simp [splitRuns]
  | succ bound ih =>
    cases as with
    | nil => simp [splitRuns]
    | cons a as =>
      intro run hr
      simp only [splitRuns, List.mem_cons] at hr
      rcases hr with rfl | hr
      · exact nextRun_subset less eager least (a :: as)
      · exact fun x hx => List.mem_of_mem_drop (ih _ run hr hx)

section Settle

variable {settle : List α → List α} (hs : ∀ l, settle l ⊆ l)
include hs

theorem settled_subset (run : Run α) : run.settled settle ⊆ run.items := by
  unfold Run.settled
  split
  · exact fun _ h => h
  · exact hs _

theorem join_subset (left right : Run α) :
    (left.join less settle right).items ⊆ left.items ++ right.items := by
  unfold Run.join
  split
  · intro a ha
    rcases List.mem_append.mp (merge_subset less _ _ ha) with ha | ha
    · exact List.mem_append_left _ (settled_subset hs left ha)
    · exact List.mem_append_right _ (settled_subset hs right ha)
  · exact fun _ h => h

theorem collapse_subset {as : List α} (depth : Nat) (before : List (Run α × Nat)) (run : Run α)
    (hb : ∀ b ∈ before, b.1.items ⊆ as) (hr : run.items ⊆ as) :
    (∀ b ∈ (collapse less settle depth before run).1, b.1.items ⊆ as) ∧
      (collapse less settle depth before run).2.items ⊆ as := by
  induction before generalizing run with
  | nil => exact ⟨by simp [collapse], hr⟩
  | cons b before ih =>
    obtain ⟨left, d⟩ := b
    unfold collapse
    split
    · apply ih _ (fun b h => hb b (List.mem_cons_of_mem _ h))
      intro a ha
      rcases List.mem_append.mp (join_subset less hs left run ha) with ha | ha
      · exact hb (left, d) List.mem_cons_self ha
      · exact hr ha
    · exact ⟨hb, hr⟩

theorem joinRuns_subset {as : List α} (n : Nat) (before : List (Run α × Nat)) (run : Run α)
    (start : Nat) (runs : List (Run α)) (hb : ∀ b ∈ before, b.1.items ⊆ as)
    (hr : run.items ⊆ as) (hn : ∀ r ∈ runs, r.items ⊆ as) :
    (joinRuns less settle n before run start runs).items ⊆ as := by
  induction runs generalizing before run start with
  | nil => exact (collapse_subset less hs 0 before run hb hr).2
  | cons next runs ih =>
    obtain ⟨hb', hr'⟩ := collapse_subset less hs
      (mergeDepth n start (start + run.items.length)
        (start + run.items.length + next.items.length)) before run hb hr
    apply ih _ _ _ _ (hn next List.mem_cons_self) fun r h => hn r (List.mem_cons_of_mem _ h)
    intro b h
    rcases List.mem_cons.mp h with rfl | h
    · exact hr'
    · exact hb' b h

theorem sortRuns_subset (eager : Bool) (as : List α) : sortRuns less settle eager as ⊆ as := by
  unfold sortRuns
  have h := splitRuns_subset less eager (leastRun as.length) as.length as
  split
  · exact List.nil_subset _
  · next run runs he =>
    rw [he] at h
    intro a ha
    exact joinRuns_subset less hs as.length [] run 0 runs (by simp) (h run List.mem_cons_self)
      (fun r hr => h r (List.mem_cons_of_mem _ hr)) (settled_subset hs _ ha)

end Settle

/-! ### Pivots -/

theorem divide_subset (goesLeft : α → Bool) (pivotLeft : Bool) (position : Nat) (as : List α) :
    (divide goesLeft pivotLeft position as).1 ⊆ as ∧
      (divide goesLeft pivotLeft position as).2 ⊆ as := by
  have h : ∀ b ∈ as.zipIdx, b.1 ∈ as := fun b hb => List.fst_mem_of_mem_zipIdx hb
  simp only [divide, List.partition_eq_filter_filter]
  constructor
  · intro a ha
    obtain ⟨b, hb, rfl⟩ := List.mem_map.mp ha
    exact h b (List.mem_filter.mp hb).1
  · intro a ha
    obtain ⟨b, hb, rfl⟩ := List.mem_map.mp ha
    exact h b (List.mem_filter.mp hb).1

theorem sortByPivot_subset (bound : Nat) (ancestor : Option α) (as : List α) :
    sortByPivot less bound ancestor as ⊆ as := by
  induction bound generalizing ancestor as with
  | zero =>
    unfold sortByPivot
    split
    · exact sortSmall_subset less as
    · exact sortRuns_subset less (sortSmall_subset less) true as
  | succ bound ih =>
    unfold sortByPivot
    split
    · exact sortSmall_subset less as
    · cases as with
      | nil => exact sortRuns_subset less (sortSmall_subset less) true []
      | cons first rest =>
        simp only
        generalize nearMedian less _ 0 _ = pivot
        split
        · obtain ⟨hl, hr⟩ := divide_subset (fun a => !less pivot.1 a) true pivot.2 (first :: rest)
          intro a ha
          rcases List.mem_append.mp ha with ha | ha
          · exact hl ha
          · exact hr (ih none _ ha)
        · obtain ⟨hl, hr⟩ := divide_subset (fun a => less a pivot.1) false pivot.2 (first :: rest)
          intro a ha
          rcases List.mem_append.mp ha with ha | ha
          · exact hl (ih ancestor _ ha)
          · exact hr (ih (some pivot.1) _ ha)

theorem sort_subset (as : List α) : sort less as ⊆ as := by
  unfold sort
  split
  · exact insertionSort_subset less as
  · exact sortRuns_subset less (fun l => sortByPivot_subset less _ none l) _ as

end StepLang.Sorting
