/-! # Dates

Dates of the Gregorian calendar, extended to all years, and their numbers counted in days from
1 January 1960.
-/

namespace StepLang.Calendar

structure Date where
  year : Int
  month : Nat
  day : Nat
  deriving DecidableEq, Repr

def isLeap (year : Int) : Bool :=
  year % 4 == 0 && (year % 100 != 0 || year % 400 == 0)

def monthLengths (year : Int) : List Nat :=
  [31, if isLeap year then 29 else 28, 31, 30, 31, 30, 31, 31, 30, 31, 30, 31]

/-- The first and the last year of the calendar. -/
def firstYear : Int := -262143

@[inherit_doc firstYear]
def lastYear : Int := 262142

def Date.isValid (d : Date) : Bool :=
  decide (firstYear ≤ d.year ∧ d.year ≤ lastYear) && decide (1 ≤ d.month ∧ 1 ≤ d.day) &&
    match (monthLengths d.year)[d.month - 1]? with
    | some length => decide (d.day ≤ length)
    | none => false

/-- The days from 1 January of year one to 1 January of a year. -/
def daysBeforeYear (year : Int) : Int :=
  let y := year - 1
  365 * y + y / 4 - y / 100 + y / 400

/-- The number of the day 1 January 1960, counted from year one. -/
def epoch : Int := 715509

/-- The days from 1 January of a year to the first day of a month. -/
def daysBeforeMonth (year : Int) (month : Nat) : Nat :=
  ((monthLengths year).take (month - 1)).foldl (· + ·) 0

def Date.toNumber (d : Date) : Int :=
  daysBeforeYear d.year + daysBeforeMonth d.year d.month + (d.day - 1) - epoch

/-- The month and the day in it that stand `days` after the start of the first listed month. -/
def monthAndDay : List Nat → Nat → Nat → Nat × Nat
  | [], month, days => (month, days + 1)
  | length :: lengths, month, days =>
    if days < length then (month, days + 1) else monthAndDay lengths (month + 1) (days - length)

def Date.ofNumber (n : Int) : Date :=
  let days := n + epoch
  let cycle := days / 146097
  let inCycle := (days % 146097).toNat
  let century := min (inCycle / 36524) 3
  let inCentury := inCycle - century * 36524
  let leapCycle := inCentury / 1461
  let inLeapCycle := inCentury % 1461
  let single := min (inLeapCycle / 365) 3
  let year := 400 * cycle + (100 * century + 4 * leapCycle + single + 1 : Nat)
  let (month, day) := monthAndDay (monthLengths year) 1 (inLeapCycle - single * 365)
  ⟨year, month, day⟩

/-- The day of the week of the date with a number, counted from Sunday as one. -/
def weekday (n : Int) : Nat :=
  ((n + 5) % 7).toNat + 1

end StepLang.Calendar
