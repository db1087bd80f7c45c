import StepLang.Dataset.Summary
import StepLang.Function

/-! # Statistics of columns and of arguments

A summary takes up the cells of a column one after the other. The functions of the same names work
on the list of their arguments. Both give one value on a column without texts: they leave out the
same cells, and combine the others in the same order.
-/

namespace StepLang

def Statistic.function : Statistic → Function
  | .n => .N
  | .nmiss => .NMISS
  | .sum => .SUM
  | .mean => .MEAN
  | .min => .MIN
  | .max => .MAX

namespace Function

theorem ofName?_name (f : Function) : ofName? f.name = some f := by
  have hupper : Text.upper f.name = f.name := by
    cases f <;> simp [name, Text.upper, ← String.toList_inj]
  rw [ofName?, hupper]
  cases f <;> rfl

/-- A function is called by its name with any count of arguments that it takes. -/
theorem call_name (today : Int) {f : Function} {args : List Value}
    (h : f.arity.refusal? args.length = none) :
    call today f.name args = .ok (f.apply today args) := by
  simp only [call, ofName?_name, h]

theorem present_cons_number (x : Float) (vs : List Value) :
    present (.number x :: vs) = if x.isNaN then present vs else x :: present vs := by
  have hmissing : (Value.number x).isMissing = x.isNaN := rfl
  have hnumber : (Value.number x).toNumber = x := rfl
  cases hx : x.isNaN with
  | true =>
    simp only [present, List.filter_cons, hmissing, hx, Bool.not_true, Bool.false_eq_true, if_true,
      if_false]
  | false =>
    simp only [present, List.filter_cons, hmissing, hx, Bool.not_false, Bool.false_eq_true, if_true,
      if_false, List.map_cons, hnumber]

theorem isMissing_missing : Value.missing.isMissing = true := by
  decide +kernel

theorem present_cons_missing (vs : List Value) : present (.missing :: vs) = present vs := by
  simp [present, isMissing_missing]

/-- Combining numbers is the same as keeping what the ones so far have been combined to, starting
with nothing. -/
theorem reduce_eq_foldl (f : Float → Float → Float) (xs : List Float) :
    reduce f xs =
      (xs.foldl (fun best x => some (best.elim x (f · x))) none).elim .missing .number := by
  have hsome (xs : List Float) (x : Float) :
      xs.foldl (fun best x => some (best.elim x (f · x))) (some x) = some (xs.foldl f x) := by
    induction xs generalizing x with
    | nil => rfl
    | cons y xs ih => exact ih (f x y)
  cases xs with
  | nil => rfl
  | cons x xs =>
    rw [List.foldl_cons, Option.elim_none, hsome]
    rfl

end Function

namespace Summary

open StepLang.Function

/-- The summary that values without texts add up to, from a summary on. -/
def extend (s : Summary) (vs : List Value) : Summary where
  count := s.count + (present vs).length
  missing := s.missing + vs.countP Value.isMissing
  total := (present vs).foldl (· + ·) s.total
  least := (present vs).foldl (fun best x => some (best.elim x (smaller · x))) s.least
  greatest := (present vs).foldl (fun best x => some (best.elim x (larger · x))) s.greatest

theorem extend_add (s : Summary) {cell : Option Value} (h : ∀ v, cell = some v → v.kind = .numeric)
    (vs : List Value) : (s.add cell).extend vs = s.extend (cell.getD .missing :: vs) := by
  rcases cell with _ | (x | t)
  · simp only [add, extend, Option.getD_none, present_cons_missing,
      List.countP_cons_of_pos isMissing_missing, Nat.add_assoc, Nat.add_comm 1]
  · have hmissing : (Value.number x).isMissing = x.isNaN := rfl
    rw [Option.getD_some]
    cases hx : x.isNaN with
    | true =>
      simp only [add, extend, present_cons_number, hx, if_true,
        List.countP_cons_of_pos (hmissing.trans hx), Nat.add_assoc, Nat.add_comm 1]
    | false =>
      have hneg : ¬ (Value.number x).isMissing = true := Bool.eq_false_iff.mp (hmissing.trans hx)
      simp only [add, extend, present_cons_number, hx, Bool.false_eq_true, if_false,
        List.countP_cons_of_neg hneg, List.foldl_cons, List.length_cons, Nat.add_assoc,
        Nat.add_comm 1]
  · cases h _ rfl

theorem foldl_add (s : Summary) {cells : List (Option Value)}
    (h : ∀ cell ∈ cells, ∀ v, cell = some v → v.kind = .numeric) :
    cells.foldl add s = s.extend (cells.map (·.getD .missing)) := by
  induction cells generalizing s with
  | nil => rfl
  | cons cell cells ih =>
    rw [List.forall_mem_cons] at h
    rw [List.foldl_cons, ih _ h.2, extend_add s h.1, List.map_cons]

theorem ofColumn_eq (d : Dataset) {column : String}
    (h : ∀ row ∈ d.rows, ∀ v, d.rowCell? row column = some v → v.kind = .numeric) :
    ofColumn d column = extend {} (d.columnValues column) := by
  have hcells : ∀ cell ∈ d.rows.map (d.rowCell? · column), ∀ v, cell = some v →
      v.kind = .numeric := by
    intro cell hcell
    obtain ⟨row, hrow, rfl⟩ := List.mem_map.mp hcell
    exact h row hrow
  have hfold := foldl_add {} hcells
  rw [List.foldl_map, List.map_map] at hfold
  exact hfold

theorem statistic_extend (today : Int) (vs : List Value) (s : Statistic) :
    (extend {} vs).statistic s = s.function.apply today vs := by
  cases s with
  | n => simp only [statistic, extend, Nat.zero_add, Statistic.function, apply]
  | nmiss => simp only [statistic, extend, Nat.zero_add, Statistic.function, apply]
  | min => exact (reduce_eq_foldl smaller (present vs)).symm
  | max => exact (reduce_eq_foldl larger (present vs)).symm
  | sum =>
    simp only [statistic, extend, Nat.zero_add, Statistic.function, apply, Function.sum]
    cases present vs <;> rfl
  | mean =>
    simp only [statistic, extend, Nat.zero_add, Statistic.function, apply, Function.mean]
    cases present vs <;> rfl

/-- Each statistic of a column without texts is the value of the function of that name on the values
of the column from the first row to the last, where an absent cell is a missing value. -/
theorem statistic_eq_call (today : Int) {d : Dataset} (hd : d.rows ≠ []) {column : String}
    (h : ∀ row ∈ d.rows, ∀ v, d.rowCell? row column = some v → v.kind = .numeric)
    (s : Statistic) :
    Function.call today s.function.name (d.columnValues column) =
      .ok ((ofColumn d column).statistic s) := by
  have hlength : 1 ≤ (d.columnValues column).length := by
    rw [Dataset.columnValues, List.length_map]
    exact List.length_pos_iff.mpr hd
  have harity : s.function.arity = .atLeast 1 := by
    cases s <;> rfl
  have hcount : s.function.arity.refusal? (d.columnValues column).length = none := by
    rw [harity]
    exact if_neg (Nat.not_lt.mpr hlength)
  rw [call_name today hcount, ofColumn_eq d h, statistic_extend]

/-- Costs of which one is missing, one is absent, and two are zeros of either sign. -/
def costs : Dataset where
  name := "costs"
  columns := ["who", "cost"]
  rows := [
    [("who", .text "a"), ("cost", .number 2.5)], [("who", .text "b")],
    [("who", .text "c"), ("cost", .missing)], [("who", .text "d"), ("cost", .number 0.0)],
    [("who", .text "e"), ("cost", .number (-0.0))]]

theorem statistic_eq_call_costs : costs.rows ≠ [] ∧
    (∀ row ∈ costs.rows, ∀ v, costs.rowCell? row "cost" = some v → v.kind = .numeric) ∧
    (∀ s : Statistic, Function.call 0 s.function.name (costs.columnValues "cost") =
      .ok ((ofColumn costs "cost").statistic s)) ∧
    [Statistic.n, .nmiss, .sum, .mean, .min, .max].map (ofColumn costs "cost").statistic =
      [.number 3.0, .number 2.0, .number 2.5, .number (2.5 / 3.0), .number (-0.0),
        .number 2.5] := by
  have hne : costs.rows ≠ [] := by decide
  have hkinds : ∀ row ∈ costs.rows, ∀ v, costs.rowCell? row "cost" = some v →
      v.kind = .numeric := by
    have hall : ∀ row ∈ costs.rows, (costs.rowCell? row "cost").all (·.kind = .numeric) := by
      decide +kernel
    intro row hrow v hv
    simpa [hv] using hall row hrow
  exact ⟨hne, hkinds, statistic_eq_call 0 hne hkinds, by decide +kernel⟩

end Summary

end StepLang
