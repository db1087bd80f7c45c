import StepLang.Sorting.Merge

/-! # Sorting short lists -/

namespace StepLang.Sorting

/-- Puts an element into a list that is sorted downwards, before the first one that it is not
less than. -/
def insertSorted (less : α → α → Bool) (a : α) : List α → List α
  | [] => [a]
  | b :: bs => if less a b then b :: insertSorted less a bs else a :: b :: bs

/-- Inserts further elements into a sorted list, each behind those that are not greater. -/
def insertAll (less : α → α → Bool) (sorted as : List α) : List α :=
  (as.foldl (fun sorted a => insertSorted less a sorted) sorted.reverse).reverse

def insertionSort (less : α → α → Bool) (as : List α) : List α :=
  insertAll less [] as

def sortTwo (less : α → α → Bool) (a b : α) : α × α :=
  if less b a then (b, a) else (a, b)

/-- Sorts four elements: two pairs, then their ends, then the two in the middle. -/
def sortFour (less : α → α → Bool) (a b c d : α) : List α :=
  let (a, b) := sortTwo less a b
  let (c, d) := sortTwo less c d
  let (least, left, right, greatest) :=
    match less c a, less d b with
    | false, false => (a, b, c, d)
    | false, true => (a, c, d, b)
    | true, false => (c, a, b, d)
    | true, true => (c, a, d, b)
  let (left, right) := sortTwo less left right
  [least, left, right, greatest]

/-- Sorts a list by inserting its elements into the first four of them. -/
def sortFromFour (less : α → α → Bool) : List α → List α
  | a :: b :: c :: d :: as => insertAll less (sortFour less a b c d) as
  | as => insertionSort less as

/-- Lists from this length on are sorted from four elements in each half. -/
def fourLimit : Nat := 8

/-- Sorts a short list: its halves are sorted, and merged from both ends. -/
def sortSmall (less : α → α → Bool) (as : List α) : List α :=
  let half := as.length / 2
  let sortHalf := if fourLimit ≤ as.length then sortFromFour less else insertionSort less
  mergeBothEnds less (sortHalf (as.take half)) (sortHalf (as.drop half))

end StepLang.Sorting
