import StepLang.Dataset
import StepLang.Function.Statistic
import StepLang.Syntax.Statement

/-! # Summaries of columns

The count, sum, mean and extremes of the numbers of a column. Text is not counted.
-/

namespace StepLang

/-- What is known of the numbers of a column. -/
structure Summary where
  count : Nat := 0
  missing : Nat := 0
  total : Float := 0.0
  least : Option Float := none
  greatest : Option Float := none

namespace Summary

def add (s : Summary) : Option Value → Summary
  | some (.number x) =>
    if x.isNaN then { s with missing := s.missing + 1 }
    else
      { s with
        count := s.count + 1
        total := s.total + x
        least := some (s.least.elim x (Function.smaller · x))
        greatest := some (s.greatest.elim x (Function.larger · x)) }
  | some (.text _) => s
  | none => { s with missing := s.missing + 1 }

def ofColumn (d : Dataset) (column : String) : Summary :=
  d.rows.foldl (fun s row => s.add (d.rowCell? row column)) {}

/-- A statistic of a summary; missing where there are no numbers. -/
def statistic (s : Summary) : Statistic → Value
  | .n => .ofNat s.count
  | .nmiss => .ofNat s.missing
  | .sum => if 0 < s.count then .number s.total else .missing
  | .mean => if 0 < s.count then .number (s.total / Float.ofNat s.count) else .missing
  | .min => s.least.elim .missing .number
  | .max => s.greatest.elim .missing .number

end Summary

end StepLang
