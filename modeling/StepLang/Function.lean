import StepLang.Calendar
import StepLang.Error
import StepLang.Function.Character
import StepLang.Function.Numeric
import StepLang.Function.Statistic

/-! # The function library

The functions that expressions can call, with the counts of arguments they take. A call checks
the name first, then the count of arguments, and then always has a value.
-/

namespace StepLang

inductive Function where
  | ABS | CAT | CATS | CEIL | COMPRESS | DAY | EXP | FLOOR | INDEX | INT | LEFT | LENGTH | LOG
  | LOG10 | LOWCASE | MAX | MDY | MEAN | MIN | MISSING | MOD | MONTH | N | NMISS | RIGHT | ROUND
  | SQRT | STRIP | SUBSTR | SUM | TODAY | TRIM | UPCASE | WEEKDAY | YEAR
  deriving DecidableEq, Repr

inductive Arity where
  | exactly (count : Nat)
  | between (least most : Nat)
  | atLeast (least : Nat)
  deriving DecidableEq, Repr

namespace Arity

def least : Arity → Nat
  | exactly n | between n _ | atLeast n => n

def refusal? (count : Nat) : Arity → Option String
  | exactly n => if count = n then none else some s!"expected {n} argument(s), got {count}"
  | between low high =>
    if count < low then some s!"expected at least {low} argument(s), got {count}"
    else if high < count then some s!"expected {low} or {high} arguments"
    else none
  | atLeast low =>
    if count < low then some s!"expected at least {low} argument(s), got {count}" else none

end Arity

namespace Function

def all : List Function :=
  [ABS, CAT, CATS, CEIL, COMPRESS, DAY, EXP, FLOOR, INDEX, INT, LEFT, LENGTH, LOG, LOG10,
    LOWCASE, MAX, MDY, MEAN, MIN, MISSING, MOD, MONTH, N, NMISS, RIGHT, ROUND, SQRT, STRIP,
    SUBSTR, SUM, TODAY, TRIM, UPCASE, WEEKDAY, YEAR]

def name : Function → String
  | ABS => "ABS" | CAT => "CAT" | CATS => "CATS" | CEIL => "CEIL" | COMPRESS => "COMPRESS"
  | DAY => "DAY" | EXP => "EXP" | FLOOR => "FLOOR" | INDEX => "INDEX" | INT => "INT"
  | LEFT => "LEFT" | LENGTH => "LENGTH" | LOG => "LOG" | LOG10 => "LOG10"
  | LOWCASE => "LOWCASE" | MAX => "MAX" | MDY => "MDY" | MEAN => "MEAN" | MIN => "MIN"
  | MISSING => "MISSING" | MOD => "MOD" | MONTH => "MONTH" | N => "N" | NMISS => "NMISS"
  | RIGHT => "RIGHT" | ROUND => "ROUND" | SQRT => "SQRT" | STRIP => "STRIP"
  | SUBSTR => "SUBSTR" | SUM => "SUM" | TODAY => "TODAY" | TRIM => "TRIM"
  | UPCASE => "UPCASE" | WEEKDAY => "WEEKDAY" | YEAR => "YEAR"

def description : Function → String
  | ABS => "Absolute value"
  | CAT => "Concatenate without trimming"
  | CATS => "Concatenate after stripping blanks"
  | CEIL => "Round up to integer"
  | COMPRESS => "Remove characters from a string"
  | DAY => "Day of the month of a date"
  | EXP => "e raised to a power"
  | FLOOR => "Round down to integer"
  | INDEX => "Find a substring"
  | INT => "Integer part"
  | LEFT => "Left-align a string"
  | LENGTH => "Length excluding trailing blanks"
  | LOG => "Natural logarithm"
  | LOG10 => "Base-10 logarithm"
  | LOWCASE => "Convert to lowercase"
  | MAX => "Largest non-missing argument"
  | MDY => "Date from month, day and year"
  | MEAN => "Mean of non-missing arguments"
  | MIN => "Smallest non-missing argument"
  | MISSING => "Test for a missing value"
  | MOD => "Remainder of a division"
  | MONTH => "Month of a date"
  | N => "Number of non-missing arguments"
  | NMISS => "Number of missing arguments"
  | RIGHT => "Right-align a string"
  | ROUND => "Round to a number of decimal places"
  | SQRT => "Square root"
  | STRIP => "Remove leading and trailing blanks"
  | SUBSTR => "Extract a substring"
  | SUM => "Sum of non-missing arguments"
  | TODAY => "Current date"
  | TRIM => "Remove trailing blanks"
  | UPCASE => "Convert to uppercase"
  | WEEKDAY => "Day of the week (1 = Sunday)"
  | YEAR => "Year of a date"

def arity : Function → Arity
  | CAT | CATS => .atLeast 0
  | MAX | MEAN | MIN | N | NMISS | SUM => .atLeast 1
  | COMPRESS | ROUND => .between 1 2
  | SUBSTR => .between 2 3
  | TODAY => .exactly 0
  | INDEX | MOD => .exactly 2
  | MDY => .exactly 3
  | _ => .exactly 1

/-- The function with a name in any case of letters. -/
def ofName? (name : String) : Option Function :=
  let key := Text.upper name
  all.find? fun f => f.name == key

/-- The day number of a value; days further than ten million from the first one are no dates. -/
def dayNumber? (v : Value) : Option Int :=
  let days := Number.floor v.toNumber
  if days.isNaN || 1e7 < days.abs then none else some (Number.clamp .signed32 days)

def datePart (part : Int → Int) (v : Value) : Value :=
  match dayNumber? v with
  | some n => .number (Float.ofInt (part n))
  | none => .missing

def mdy (month day year : Value) : Value :=
  if month.isMissing || day.isMissing || year.isMissing then .missing
  else
    let count (v : Value) := (Number.clamp .count32 v.toNumber).toNat
    let date : Calendar.Date :=
      ⟨Number.clamp .signed32 year.toNumber, count month, count day⟩
    if date.isValid then .number (Float.ofInt date.toNumber) else .missing

/-- The value of a function on a count of arguments that it takes; `today` is the number of the
current day. -/
def apply (today : Int) : Function → List Value → Value
  | ABS, [v] => mapNumber Float.abs v
  | SQRT, [v] => mapNumber Float.sqrt v
  | LOG, [v] => mapPositive Float.log v
  | LOG10, [v] => mapPositive Float.log10 v
  | EXP, [v] => mapNumber Float.exp v
  | CEIL, [v] => mapNumber Number.ceiling v
  | FLOOR, [v] => mapNumber Number.floor v
  | INT, [v] => mapNumber Number.truncate v
  | ROUND, [v] => roundTo 0 v
  | ROUND, [v, places] => if places.isMissing then .missing else roundTo (toPlaces places) v
  | MOD, [v, w] => modulo v w
  | SUBSTR, [s, position] => .text (substring s.toText position.toNumber none)
  | SUBSTR, [s, position, length] =>
    .text (substring s.toText position.toNumber (some length.toNumber))
  | TRIM, [s] => .text (Text.trimEnd s.toText)
  | LEFT, [s] => .text (alignLeft s.toText)
  | RIGHT, [s] => .text (alignRight s.toText)
  | UPCASE, [s] => .text (Text.toUpperCase s.toText)
  | LOWCASE, [s] => .text (Text.toLowerCase s.toText)
  | STRIP, [s] => .text (Text.trim s.toText)
  | LENGTH, [s] => .ofNat (trimmedLength s.toText)
  | INDEX, [s, excerpt] => .ofNat (index s.toText excerpt.toText)
  | COMPRESS, [s] => .text (without s.toText " ")
  | COMPRESS, [s, removed] => .text (without s.toText removed.toText)
  | CAT, args => .text (String.join (args.map Value.toText))
  | CATS, args => .text (String.join (args.map fun v => Text.trim v.toText))
  | SUM, args => sum args
  | MEAN, args => mean args
  | MIN, args => reduce smaller (present args)
  | MAX, args => reduce larger (present args)
  | N, args => .ofNat (present args).length
  | NMISS, args => .ofNat (args.countP Value.isMissing)
  | MISSING, [v] => .ofBool v.isMissing
  | TODAY, _ => .number (Float.ofInt today)
  | MDY, [month, day, year] => mdy month day year
  | YEAR, [v] => datePart (fun n => (Calendar.Date.ofNumber n).year) v
  | MONTH, [v] => datePart (fun n => (Calendar.Date.ofNumber n).month) v
  | DAY, [v] => datePart (fun n => (Calendar.Date.ofNumber n).day) v
  | WEEKDAY, [v] => datePart (fun n => Calendar.weekday n) v
  | _, _ => .missing

def call (today : Int) (name : String) (args : List Value) : Except Error Value :=
  match ofName? name with
  | none => .error (.undefinedFunction (Text.upper name))
  | some f =>
    match f.arity.refusal? args.length with
    | some reason => .error (.invalidArguments f.name reason)
    | none => .ok (f.apply today args)

end Function

end StepLang
