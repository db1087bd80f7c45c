import Mathlib.Data.List.TakeWhile
import StepLang.Proofs.DateFunctions
import StepLang.Proofs.Excerpts
import StepLang.Proofs.Text.Search

/-! # Calls that cannot fail

A function takes its arguments by their positions, cuts texts at positions in their characters or
their bytes, and counts days with integers of 32 bits. Each of these steps has no result on some
data. A call checks the count of arguments, and on every list of so many arguments each step has a
result.
-/

namespace StepLang

/-! ### Steps that may have no result -/

def difference? (m n : Nat) : Option Nat :=
  if n ≤ m then some (m - n) else none

theorem difference?_of_le {m n : Nat} (h : n ≤ m) : difference? m n = some (m - n) :=
  if_pos h

/-- The elements from the first position to before the last, if the list has these positions. -/
def slice? {α : Type} (xs : List α) (first last : Nat) : Option (List α) :=
  if first ≤ last ∧ last ≤ xs.length then some ((xs.drop first).take (last - first)) else none

/-- The integer, if it is one of the range. -/
def Number.Bounds.within? (b : Number.Bounds) (n : Int) : Option Int :=
  if b.low ≤ n ∧ n ≤ b.high then some n else none

theorem Number.Bounds.within?_signed32 {n : Int} (h : n.natAbs ≤ 2000000000) :
    Number.Bounds.signed32.within? n = some n := by
  refine if_pos ?_
  change -0x80000000 ≤ n ∧ n ≤ 0x7fffffff
  omega

/-- The count of arguments is one that a function with the arity takes. -/
def Arity.Accepts (count : Nat) : Arity → Prop
  | .exactly n => count = n
  | .between low high => low ≤ count ∧ count ≤ high
  | .atLeast low => low ≤ count

theorem Arity.refusal?_eq_none_iff {a : Arity} {count : Nat} :
    a.refusal? count = none ↔ a.Accepts count := by
  cases a with
  | exactly n =>
    unfold refusal? Accepts
    split <;> simp_all
  | between low high =>
    unfold refusal? Accepts
    grind
  | atLeast low =>
    unfold refusal? Accepts
    grind

namespace Function

open Calendar

/-! ### Excerpts and positions -/

def substring? (s : String) (position : Float) (length : Option Float) : Option String :=
  let cs := s.toList
  if position.isNaN || position < 1.0 || cs.length < Number.toCount position then some ""
  else do
    let start ← difference? (Number.toCount position) 1
    let available ← difference? cs.length start
    match length with
    | none => return String.ofList (← slice? cs start (start + available))
    | some n =>
      if n.isNaN || n < 1.0 then return ""
      return String.ofList (← slice? cs start (start + min (Number.toCount n) available))

theorem slice?_add {α : Type} {xs : List α} {first count : Nat} (h : first + count ≤ xs.length) :
    slice? xs first (first + count) = some ((xs.drop first).take count) := by
  rw [slice?, if_pos ⟨Nat.le_add_right _ _, h⟩, Nat.add_sub_cancel_left]

theorem toCount_bounds {position : Float} {n : Nat}
    (h : (position.isNaN || position < 1.0 || n < Number.toCount position) = false) :
    1 ≤ Number.toCount position ∧ Number.toCount position ≤ n := by
  simp only [Bool.or_eq_false_iff, decide_eq_false_iff_not, not_lt] at h
  obtain ⟨⟨hnan, hlt⟩, hle⟩ := h
  have hone : ¬ (position.isNaN = true ∨ position < 1.0) :=
    not_or.mpr ⟨ne_true_of_eq_false hnan, hlt⟩
  rw [isNaN_or_lt_iff denotes_one.isNaN, not_not, denotes_one.le_iff_wholeCount Nat.one_pos] at hone
  have hpos : ((0 : Nat) : ℕ∞) < wholeCount position :=
    (Nat.cast_lt.mpr Nat.one_pos).trans_le hone
  exact ⟨(lt_toCount_iff (by decide) position).mpr hpos, hle⟩

theorem substring?_eq (s : String) (position : Float) (length : Option Float) :
    substring? s position length = some (substring s position length) := by
  unfold substring? substring
  dsimp only
  split
  · rfl
  · rename_i h
    obtain ⟨hone, hle⟩ := toCount_bounds (Bool.eq_false_iff.mpr h)
    generalize Number.toCount position = first at hone hle ⊢
    generalize s.toList = cs at hle ⊢
    rw [difference?_of_le hone, Option.bind_eq_bind, Option.bind_some,
      difference?_of_le (by omega), Option.bind_eq_bind, Option.bind_some]
    cases length with
    | none =>
      dsimp only
      rw [slice?_add (by omega), List.take_of_length_le (by rw [List.length_drop])]
      rfl
    | some l =>
      dsimp only
      split
      · rfl
      · rw [slice?_add (by omega)]
        refine congrArg some (congrArg String.ofList (List.take_eq_take_iff.mpr ?_))
        rw [List.length_drop]
        omega

def alignLeft? (s : String) : Option String := do
  let body := Text.trimStart s
  return body ++ String.ofList (List.replicate (← difference? s.length body.length) ' ')

def alignRight? (s : String) : Option String := do
  let body := Text.trimEnd s
  return String.ofList (List.replicate (← difference? s.length body.length) ' ') ++ body

theorem alignLeft?_eq (s : String) : alignLeft? s = some (alignLeft s) := by
  have hle : (Text.trimStart s).length ≤ s.length := by
    rw [Text.trimStart, String.length_ofList, ← String.length_toList]
    exact List.length_dropWhile_le _ _
  simp only [alignLeft?, difference?_of_le hle]
  rfl

theorem alignRight?_eq (s : String) : alignRight? s = some (alignRight s) := by
  have hle : (Text.trimEnd s).length ≤ s.length := by
    rw [Text.trimEnd, String.length_ofList, List.length_reverse, ← String.length_toList,
      ← s.toList.length_reverse]
    exact List.length_dropWhile_le _ _
  simp only [alignRight?, difference?_of_le hle]
  rfl

/-- The position of the first occurrence of an excerpt, which is searched for among bytes: it is one
more than the count of characters before it. -/
def index? (s excerpt : String) : Option Nat :=
  if excerpt.isEmpty then some 0
  else
    let bytes := s.toUTF8.toList
    match Text.find? excerpt.toUTF8.toList bytes with
    | none => some 0
    | some offset => do
      let before ← (Text.decode (bytes.take offset)).toOption
      return before.length + 1

theorem index?_eq (s excerpt : String) : index? s excerpt = some (index s excerpt) := by
  have hbytes (t : String) : t.toUTF8.toList = Text.encode t.toList := Text.toList_toUTF8 t
  unfold index?
  split
  · rename_i hempty
    rw [index, if_pos hempty]
  · rename_i hempty
    have hne : excerpt.toList ≠ [] := fun h => hempty (by simpa using h)
    rw [index, if_neg hempty, hbytes, hbytes]
    dsimp only
    cases hfirst : occurrence? excerpt.toList s.toList 1 with
    | none =>
      have hnone : Text.find? (Text.encode excerpt.toList) (Text.encode s.toList) = none := by
        refine Text.find?_eq_none_iff.mpr fun k hat => ?_
        obtain ⟨i, -, -, hat⟩ := Text.exists_of_prefix_drop hne hat
        exact not_prefix_of_occurrence? hfirst i hat
      rw [hnone]
      rfl
    | some k =>
      obtain ⟨i, rfl, hat, hleast⟩ := exists_of_occurrence? hfirst
      have hsome : Text.find? (Text.encode excerpt.toList) (Text.encode s.toList) =
          some (Text.encode (s.toList.take i)).length := by
        refine Text.find?_eq_some_iff.mpr ⟨?_, Text.prefix_drop_encode hat, fun j hj hat' => ?_⟩
        · rw [Text.encode_split s.toList i, List.length_append]
          exact Nat.le_add_right _ _
        · obtain ⟨i', -, rfl, hat''⟩ := Text.exists_of_prefix_drop hne hat'
          exact Nat.not_lt.mpr (Text.length_encode_take_le (hleast i' hat'')) hj
      have hlength : (String.ofList (s.toList.take i)).length = i := by
        rw [String.length_ofList, List.length_take, String.length_toList]
        have hend := (add_length_le_of_isPrefix (mt String.isEmpty_iff.mpr hempty) hat).2
        omega
      rw [hsome]
      dsimp only
      rw [Text.decode_take_encode]
      change some ((String.ofList (s.toList.take i)).length + 1) = some (1 + i)
      rw [hlength, Nat.add_comm]

/-! ### Dates -/

def dateNumber? (date : Date) : Option Int := do
  let days ← Number.Bounds.signed32.within? (date.toNumber + (epoch + 1))
  Number.Bounds.signed32.within? (days - (epoch + 1))

theorem dateNumber?_eq {date : Date} (h : date.isValid = true) :
    dateNumber? date = some date.toNumber := by
  have hle := ((Date.isValid_iff date).mp h).natAbs_toNumber_le
  unfold dateNumber? epoch
  rw [Number.Bounds.within?_signed32 (by omega), Option.bind_eq_bind, Option.bind_some,
    Int.add_sub_cancel, Number.Bounds.within?_signed32 (by omega)]

def calendarDay? (v : Value) : Option (Option Int) :=
  match dayNumber? v with
  | none => some none
  | some n => do
    let days ← Number.Bounds.signed32.within? (n + (epoch + 1))
    let day := days - (epoch + 1)
    return if (Date.ofNumber day).isValid then some day else none

theorem natAbs_dayNumber?_le {v : Value} {n : Int} (h : dayNumber? v = some n) :
    n.natAbs ≤ 10000000 := by
  have hlimit : Denotes 1e7 (10000000 : Nat) := ⟨rfl, by decide +kernel⟩
  unfold dayNumber? at h
  dsimp only at h
  split at h
  · cases h
  · rename_i hwithin
    rw [Bool.not_eq_true, Bool.or_eq_false_iff, decide_eq_false_iff_not] at hwithin
    obtain ⟨hfinite, hle⟩ := hlimit.natAbs_whole_le hwithin.1 hwithin.2
    rw [Option.some.injEq, clamp_of_isFinite hfinite] at h
    subst h
    unfold Number.Bounds.signed32 Number.Bounds.nearest
    dsimp only
    omega

theorem calendarDay?_eq (v : Value) : calendarDay? v = some (dayNumber? v) := by
  unfold calendarDay?
  cases h : dayNumber? v with
  | none => rfl
  | some n =>
    have hle := natAbs_dayNumber?_le h
    have hvalid := (Date.isValid_iff (Date.ofNumber n)).mpr (isDate_ofNumber hle)
    dsimp only
    rw [Number.Bounds.within?_signed32 (by unfold epoch; omega), Option.bind_eq_bind,
      Option.bind_some, Int.add_sub_cancel, if_pos hvalid]
    rfl

def datePart? (part : Int → Int) (v : Value) : Option Value := do
  match ← calendarDay? v with
  | some n => return .number (Float.ofInt (part n))
  | none => return .missing

theorem datePart?_eq (part : Int → Int) (v : Value) :
    datePart? part v = some (datePart part v) := by
  rw [datePart?, calendarDay?_eq, datePart, Option.bind_eq_bind, Option.bind_some]
  cases dayNumber? v <;> rfl

/-- The date of a month, a day and a year, each taken as an integer. -/
def dateOf (month day year : Value) : Date :=
  ⟨Number.clamp .signed32 year.toNumber, (Number.clamp .count32 month.toNumber).toNat,
    (Number.clamp .count32 day.toNumber).toNat⟩

theorem mdy_eq_dateOf (month day year : Value) : mdy month day year =
    if month.isMissing || day.isMissing || year.isMissing then .missing
    else if (dateOf month day year).isValid then
      .number (Float.ofInt (dateOf month day year).toNumber)
    else .missing :=
  rfl

/-! ### Functions -/

/-- The value of a function on any list of arguments, if each of its steps has a result. -/
def checked? (clock : Date) : Function → List Value → Option Value
  | ABS, args => do return mapNumber Float.abs (← args[0]?)
  | SQRT, args => do return mapNumber Float.sqrt (← args[0]?)
  | LOG, args => do return mapPositive Float.log (← args[0]?)
  | LOG10, args => do return mapPositive Float.log10 (← args[0]?)
  | EXP, args => do return mapNumber Float.exp (← args[0]?)
  | CEIL, args => do return mapNumber Number.ceiling (← args[0]?)
  | FLOOR, args => do return mapNumber Number.floor (← args[0]?)
  | INT, args => do return mapNumber Number.truncate (← args[0]?)
  | ROUND, args =>
    match args[1]? with
    | none => do return roundTo 0 (← args[0]?)
    | some places =>
      if places.isMissing then return .missing
      else do return roundTo (toPlaces places) (← args[0]?)
  | MOD, args => do
    let divisor ← args[1]?
    return modulo (← args[0]?) divisor
  | SUBSTR, args => do
    let s ← args[0]?
    let position ← args[1]?
    return .text (← substring? s.toText position.toNumber (args[2]?.map Value.toNumber))
  | TRIM, args => do return .text (Text.trimEnd (← args[0]?).toText)
  | LEFT, args => do return .text (← alignLeft? (← args[0]?).toText)
  | RIGHT, args => do return .text (← alignRight? (← args[0]?).toText)
  | UPCASE, args => do return .text (Text.toUpperCase (← args[0]?).toText)
  | LOWCASE, args => do return .text (Text.toLowerCase (← args[0]?).toText)
  | STRIP, args => do return .text (Text.trim (← args[0]?).toText)
  | LENGTH, args => do return .ofNat (trimmedLength (← args[0]?).toText)
  | INDEX, args => do
    let s ← args[0]?
    let excerpt ← args[1]?
    return .ofNat (← index? s.toText excerpt.toText)
  | COMPRESS, args => do
    let removed := (args[1]?.map Value.toText).getD " "
    return .text (without (← args[0]?).toText removed)
  | CAT, args => some (.text (String.join (args.map Value.toText)))
  | CATS, args => some (.text (String.join (args.map fun v => Text.trim v.toText)))
  | SUM, args => some (sum args)
  | MEAN, args => some (mean args)
  | MIN, args => some (reduce smaller (present args))
  | MAX, args => some (reduce larger (present args))
  | N, args => some (.ofNat (present args).length)
  | NMISS, args => some (.ofNat (args.countP Value.isMissing))
  | MISSING, args => do return .ofBool (← args[0]?).isMissing
  | TODAY, _ => do return .number (Float.ofInt (← dateNumber? clock))
  | MDY, args =>
    if args.any Value.isMissing then some .missing
    else do
      let date := dateOf (← args[0]?) (← args[1]?) (← args[2]?)
      if date.isValid then return .number (Float.ofInt (← dateNumber? date)) else return .missing
  | YEAR, args => do datePart? (fun n => (Date.ofNumber n).year) (← args[0]?)
  | MONTH, args => do datePart? (fun n => (Date.ofNumber n).month) (← args[0]?)
  | DAY, args => do datePart? (fun n => (Date.ofNumber n).day) (← args[0]?)
  | WEEKDAY, args => do datePart? (fun n => weekday n) (← args[0]?)

section Calls

variable {clock : Date} {f : Function} {args : List Value}

/-- On a count of arguments that the function takes, each of its steps has a result. -/
theorem checked?_eq_apply (hclock : clock.isValid = true) (h : f.arity.Accepts args.length) :
    f.checked? clock args = some (f.apply clock.toNumber args) := by
  have hone (h : args.length = 1) : ∃ v, args = [v] := List.length_eq_one_iff.mp h
  have htwo (h : args.length = 2) : ∃ v w, args = [v, w] := List.length_eq_two.mp h
  have hfew (h : 1 ≤ args.length ∧ args.length ≤ 2) :
      (∃ v, args = [v]) ∨ ∃ v w, args = [v, w] := by
    rcases (by omega : args.length = 1 ∨ args.length = 2) with h | h
    · exact .inl (hone h)
    · exact .inr (htwo h)
  cases f with
  | CAT | CATS | SUM | MEAN | MIN | MAX | N | NMISS => rfl
  | TODAY =>
    simp only [checked?, dateNumber?_eq hclock]
    rfl
  | ABS | SQRT | LOG | LOG10 | EXP | CEIL | FLOOR | INT | TRIM | UPCASE | LOWCASE | STRIP | LENGTH
  | MISSING =>
    obtain ⟨v, rfl⟩ := hone h
    rfl
  | LEFT =>
    obtain ⟨v, rfl⟩ := hone h
    simp only [checked?, List.getElem?_cons_zero, Option.bind_eq_bind, Option.bind_some,
      alignLeft?_eq]
    rfl
  | RIGHT =>
    obtain ⟨v, rfl⟩ := hone h
    simp only [checked?, List.getElem?_cons_zero, Option.bind_eq_bind, Option.bind_some,
      alignRight?_eq]
    rfl
  | YEAR | MONTH | DAY | WEEKDAY =>
    obtain ⟨v, rfl⟩ := hone h
    simp only [checked?, List.getElem?_cons_zero, Option.bind_eq_bind, Option.bind_some,
      datePart?_eq]
    rfl
  | MOD =>
    obtain ⟨v, w, rfl⟩ := htwo h
    rfl
  | INDEX =>
    obtain ⟨v, w, rfl⟩ := htwo h
    simp only [checked?, List.getElem?_cons_zero, List.getElem?_cons_succ, Option.bind_eq_bind,
      Option.bind_some, index?_eq]
    rfl
  | COMPRESS =>
    rcases hfew h with ⟨v, rfl⟩ | ⟨v, w, rfl⟩ <;> rfl
  | ROUND =>
    rcases hfew h with ⟨v, rfl⟩ | ⟨v, w, rfl⟩
    · rfl
    · simp only [checked?, apply, List.getElem?_cons_succ, List.getElem?_cons_zero]
      split <;> rfl
  | SUBSTR =>
    have hcount : args.length = 2 ∨ args.length = 3 := by
      obtain ⟨hlow, hhigh⟩ : 2 ≤ args.length ∧ args.length ≤ 3 := h
      omega
    rcases hcount with hcount | hcount
    · obtain ⟨v, w, rfl⟩ := htwo hcount
      simp only [checked?, List.getElem?_cons_zero, List.getElem?_cons_succ, Option.bind_eq_bind,
        Option.bind_some, substring?_eq]
      rfl
    · obtain ⟨v, w, u, rfl⟩ := List.length_eq_three.mp hcount
      simp only [checked?, List.getElem?_cons_zero, List.getElem?_cons_succ, Option.bind_eq_bind,
        Option.bind_some, substring?_eq]
      rfl
  | MDY =>
    obtain ⟨month, day, year, rfl⟩ := List.length_eq_three.mp h
    simp only [checked?, apply, mdy_eq_dateOf, List.any_cons, List.any_nil, Bool.or_false,
      ← Bool.or_assoc]
    split
    · rfl
    · simp only [List.getElem?_cons_zero, List.getElem?_cons_succ, Option.bind_eq_bind,
        Option.bind_some]
      split
      · rename_i hvalid
        rw [dateNumber?_eq hvalid]
        rfl
      · rfl

/-- A call of a name either finds no function, or refuses the count of arguments, or has a value;
and then every step on the way to it had a result. -/
theorem call_cases (hclock : clock.isValid = true) (name : String) (args : List Value) :
    (Text.upper name ∉ all.map Function.name ∧
      call clock.toNumber name args = .error (.undefinedFunction (Text.upper name))) ∨
    ∃ f : Function, f.name = Text.upper name ∧
      ((¬ f.arity.Accepts args.length ∧ ∃ reason,
          call clock.toNumber name args = .error (.invalidArguments f.name reason)) ∨
        (f.arity.Accepts args.length ∧ ∃ v, f.checked? clock args = some v ∧
          call clock.toNumber name args = .ok v)) := by
  unfold call
  cases hfind : ofName? name with
  | none =>
    refine .inl ⟨fun hmem => ?_, rfl⟩
    obtain ⟨f, hf, hname⟩ := List.mem_map.mp hmem
    have hne := List.find?_eq_none.mp hfind f hf
    exact hne (beq_iff_eq.mpr hname)
  | some f =>
    have hfound := List.find?_some hfind
    have hname : f.name = Text.upper name := beq_iff_eq.mp hfound
    refine .inr ⟨f, hname, ?_⟩
    dsimp only
    cases hrefusal : f.arity.refusal? args.length with
    | none =>
      have haccepts := Arity.refusal?_eq_none_iff.mp hrefusal
      exact .inr ⟨haccepts, _, checked?_eq_apply hclock haccepts, rfl⟩
    | some reason =>
      refine .inl ⟨fun haccepts => ?_, reason, rfl⟩
      rw [Arity.refusal?_eq_none_iff.mpr haccepts] at hrefusal
      cases hrefusal

end Calls

/-- An excerpt from an infinite position on, of a missing length, on a leap day. -/
theorem call_cases_infinite : (⟨2024, 2, 29⟩ : Date).isValid = true ∧
    ∃ v, Function.SUBSTR.checked? ⟨2024, 2, 29⟩ [.text "→é", .number (1.0 / 0.0), .missing] =
        some v ∧
      call (Date.toNumber ⟨2024, 2, 29⟩) "substr" [.text "→é", .number (1.0 / 0.0), .missing] =
        .ok v := by
  have hclock : (⟨2024, 2, 29⟩ : Date).isValid = true := by decide
  have hupper : Text.upper "substr" = Function.SUBSTR.name := by
    simp [Function.name, Text.upper, ← String.toList_inj]
  refine ⟨hclock, ?_⟩
  rcases call_cases hclock "substr" [.text "→é", .number (1.0 / 0.0), .missing] with
    ⟨hnone, -⟩ | ⟨f, hname, hcall⟩
  · rw [hupper] at hnone
    exact absurd (List.mem_map_of_mem (by decide)) hnone
  · rw [hupper] at hname
    obtain rfl : f = .SUBSTR := Option.some.inj <| by rw [← ofName?_name f, hname, ofName?_name]
    rcases hcall with ⟨hcount, -⟩ | ⟨-, hvalue⟩
    · exact absurd (by decide : 2 ≤ 3 ∧ 3 ≤ 3) hcount
    · exact hvalue

example (clock : Date) : Function.SUBSTR.checked? clock [.text "→é"] = none := rfl

end Function

end StepLang
