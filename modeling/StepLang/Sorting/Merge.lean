/-! # Merging

Two sorted lists are merged from the front, from the back, or from both ends at once. For an order
the three give the same list. The comparison need not be an order, though, and then each of them
puts the elements in a way of its own.
-/

namespace StepLang.Sorting

/-- Takes up to `count` elements off two lists, each time the lesser of the two heads, and of equal
heads that of the first list. Gives the elements taken and what is left of both lists. -/
def takeMerged (less : α → α → Bool) : Nat → List α → List α → List α × List α × List α
  | count + 1, a :: left, b :: right =>
    if less b a then
      let (taken, rests) := takeMerged less count (a :: left) right
      (b :: taken, rests)
    else
      let (taken, rests) := takeMerged less count left (b :: right)
      (a :: taken, rests)
  | _, left, right => ([], left, right)

/-- Takes up to `count` elements off the ends of two lists, each time the greater of the two, and of
equal ones that of the second list. Gives the elements taken, the last one first, and what is left
of both lists, reversed. -/
def takeMergedBack (less : α → α → Bool) (count : Nat) (left right : List α) :
    List α × List α × List α :=
  let (taken, right, left) := takeMerged (fun a b => less b a) count right.reverse left.reverse
  (taken, left, right)

def mergeFront (less : α → α → Bool) (left right : List α) : List α :=
  let (taken, left, right) := takeMerged less (left.length + right.length) left right
  taken ++ left ++ right

def mergeBack (less : α → α → Bool) (left right : List α) : List α :=
  let (taken, left, right) := takeMergedBack less (left.length + right.length) left right
  left.reverse ++ right.reverse ++ taken.reverse

/-- Merges two lists from the side of the shorter one. -/
def merge (less : α → α → Bool) (left right : List α) : List α :=
  if left.length ≤ right.length then mergeFront less left right else mergeBack less left right

/-- Merges two lists from both ends: as many elements as the first list has are taken at each end,
and one that neither end has taken stands between them. Ends that overlap, which takes a comparison
that is no order, are given up for a merge from the front. -/
def mergeBothEnds (less : α → α → Bool) (left right : List α) : List α :=
  let (front, leftAfter, rightAfter) := takeMerged less left.length left right
  let (back, leftBefore, rightBefore) := takeMergedBack less left.length left right
  if left.length ≤ leftAfter.length + leftBefore.length ∧
      right.length ≤ rightAfter.length + rightBefore.length then
    front ++ leftAfter.take (leftAfter.length + leftBefore.length - left.length) ++
      rightAfter.take (rightAfter.length + rightBefore.length - right.length) ++ back.reverse
  else mergeFront less left right

end StepLang.Sorting
