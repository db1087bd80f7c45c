import StepLang.Sorting.Pivot

/-! # Sorting

Elements are sorted by a comparison that need not be an order. If it is one, equal elements keep
their places and every way of sorting gives the same list. If it is not, the result depends on
which elements are compared with each other, and this module fixes them.
-/

namespace StepLang.Sorting

def insertionLimit : Nat := 20

def sort (less : α → α → Bool) (as : List α) : List α :=
  if as.length ≤ insertionLimit then insertionSort less as
  else
    let settle (run : List α) := sortByPivot less (2 * Nat.log2 run.length) none run
    sortRuns less settle (as.length ≤ 2 * smallLimit) as

end StepLang.Sorting
