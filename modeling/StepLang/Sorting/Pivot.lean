import StepLang.Sorting.Run

/-! # Sorting by a pivot

A list is divided into the elements less than a pivot and the others, which are sorted for
themselves. After too many divisions the list is sorted by its runs.
-/

namespace StepLang.Sorting

/-- The element between two others; each comes with its position. -/
def median (less : α → α → Bool) (a b c : α × Nat) : α × Nat :=
  let below := less a.1 b.1
  if below == less a.1 c.1 then if less b.1 c.1 == below then b else c else a

/-- An element near the middle of a section of a list: the median of three parts of the section,
each an eighth of it. -/
def nearMedian (less : α → α → Bool) (item : Nat → α × Nat) (start length : Nat) : α × Nat :=
  if length < 8 then item start
  else
    let part := length / 8
    median less (nearMedian less item start part) (nearMedian less item (start + part * 4) part)
      (nearMedian less item (start + part * 7) part)
termination_by length
decreasing_by all_goals omega

/-- The elements that go to the left and those that do not, in their order. Where the pivot goes is
given. -/
def divide (goesLeft : α → Bool) (pivotLeft : Bool) (position : Nat) (as : List α) :
    List α × List α :=
  let (left, right) := as.zipIdx.partition fun (a, i) =>
    if i = position then pivotLeft else goesLeft a
  (left.map (·.1), right.map (·.1))

/-- Sorts a list by pivots. The bound is on the depth of divisions; `ancestor` is the pivot that
all elements are not less than. A pivot that equals it stands with all its equals in front. -/
def sortByPivot (less : α → α → Bool) (bound : Nat) (ancestor : Option α) (as : List α) : List α :=
  if as.length ≤ smallLimit then sortSmall less as
  else
    match bound, as with
    | 0, _ | _, [] => sortRuns less (sortSmall less) true as
    | bound + 1, first :: _ =>
      let elements := as.zipIdx.toArray
      let (pivot, position) :=
        nearMedian less (fun i => elements.getD i (first, 0)) 0 elements.size
      let (left, right) := divide (fun a => less a pivot) false position as
      if left.isEmpty || ancestor.any fun a => !less a pivot then
        let (left, right) := divide (fun a => !less pivot a) true position as
        left ++ sortByPivot less bound none right
      else
        sortByPivot less bound ancestor left ++ sortByPivot less bound (some pivot) right

end StepLang.Sorting
