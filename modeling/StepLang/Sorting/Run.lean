import StepLang.Sorting.Small

/-! # Sorting by runs

A list is cut into runs: stretches that are sorted already, short ones that are sorted at once, and
others that are left for later. Neighbouring runs are merged as in a balanced tree over the
positions where they meet.
-/

namespace StepLang.Sorting

/-- A stretch of a list, and whether it is sorted. -/
structure Run (α : Type _) where
  items : List α
  sorted : Bool

/-- Lists up to this length are sorted at once. -/
def smallLimit : Nat := 32

/-- A stretch of this length is a run in a list of medium length. -/
def mediumRun : Nat := 64

/-- The least length of a sorted stretch that is kept as a run, in a list of length `n`: half of a
short list, and about the root of a long one. -/
def leastRun (n : Nat) : Nat :=
  if n ≤ mediumRun * mediumRun then min (n - n / 2) mediumRun
  else
    let shift := (1 + Nat.log2 n) / 2
    ((1 <<< shift) + (n >>> shift)) / 2

/-- The count of elements that go on downwards, or else do not, behind `last`. -/
def stretch (less : α → α → Bool) (descending : Bool) (last : α) : List α → Nat
  | [] => 0
  | b :: bs => if less b last == descending then stretch less descending b bs + 1 else 0

/-- The sorted stretch at the head of a list; one that goes downwards is turned around. -/
def headRun (less : α → α → Bool) : List α → List α
  | a :: b :: as =>
    let descending := less b a
    let run := (a :: b :: as).take (stretch less descending a (b :: as) + 1)
    if descending then run.reverse else run
  | as => as

/-- The run at the head of a list, where stretches shorter than `least` do not count. -/
def nextRun (less : α → α → Bool) (eager : Bool) (least : Nat) (as : List α) : Run α :=
  let run := headRun less as
  if least ≤ run.length then ⟨run, true⟩
  else if eager then ⟨sortSmall less (as.take smallLimit), true⟩
  else ⟨as.take least, false⟩

/-- The runs of a list; the bound is on their count. -/
def splitRuns (less : α → α → Bool) (eager : Bool) (least : Nat) : Nat → List α → List (Run α)
  | 0, _ | _, [] => []
  | bound + 1, as =>
    let run := nextRun less eager least as
    run :: splitRuns less eager least bound (as.drop run.items.length)

/-- The depth at which two neighbouring runs are merged, in a list of length `n`: that of the first
binary digit in which the middles of the runs differ. -/
def mergeDepth (n start middle stop : Nat) : Nat :=
  let scale := ((1 <<< 62) + n - 1) / n
  let difference := (scale * (start + middle)) ^^^ (scale * (middle + stop))
  if difference = 0 then 64 else 63 - Nat.log2 difference

/-- The elements of a run in order; `settle` sorts those that are not. -/
def Run.settled (settle : List α → List α) (run : Run α) : List α :=
  if run.sorted then run.items else settle run.items

/-- Two neighbouring runs as one. Two unsorted ones stay so. -/
def Run.join (less : α → α → Bool) (settle : List α → List α) (left right : Run α) : Run α :=
  if left.sorted || right.sorted then
    ⟨merge less (left.settled settle) (right.settled settle), true⟩
  else ⟨left.items ++ right.items, false⟩

/-- Joins a run with those before it that are to be merged at the given depth or deeper. The
nearest run comes first, each with the depth of its merge. -/
def collapse (less : α → α → Bool) (settle : List α → List α) (depth : Nat) :
    List (Run α × Nat) → Run α → List (Run α × Nat) × Run α
  | [], run => ([], run)
  | (left, d) :: before, run =>
    if depth ≤ d then collapse less settle depth before (left.join less settle run)
    else ((left, d) :: before, run)

/-- Joins all runs of a list of length `n`: those before a run, the run, which begins at `start`,
and those behind it. -/
def joinRuns (less : α → α → Bool) (settle : List α → List α) (n : Nat)
    (before : List (Run α × Nat)) (run : Run α) (start : Nat) : List (Run α) → Run α
  | [] => (collapse less settle 0 before run).2
  | next :: runs =>
    let middle := start + run.items.length
    let depth := mergeDepth n start middle (middle + next.items.length)
    let (before, run) := collapse less settle depth before run
    joinRuns less settle n ((run, depth) :: before) next middle runs

/-- Sorts a list by its runs; those that are not sorted are left to `settle`. -/
def sortRuns (less : α → α → Bool) (settle : List α → List α) (eager : Bool) (as : List α) :
    List α :=
  match splitRuns less eager (leastRun as.length) as.length as with
  | [] => []
  | run :: runs => (joinRuns less settle as.length [] run 0 runs).settled settle

end StepLang.Sorting
