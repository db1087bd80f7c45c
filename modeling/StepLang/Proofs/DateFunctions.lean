import StepLang.Proofs.Calendar
import StepLang.Proofs.Summary
import StepLang.Proofs.WholeParts

/-! # Functions of dates

The functions that take a date apart and the one that puts it together undo each other, on every day
that they know. Arguments are values that stand for integers.
-/

namespace StepLang

open Calendar

/-- The value is not missing and stands for the integer. -/
structure Value.IsInteger (v : Value) (i : Int) : Prop where
  present : v.isMissing = false
  denotes : Denotes v.toNumber i

theorem Value.isInteger_number {x : Float} {i : Int} (h : Denotes x i) :
    (Value.number x).IsInteger i :=
  ⟨h.isNaN, h⟩

namespace Function

section Parts

variable {v : Value} {n : Int}

theorem dayNumber?_eq (hv : Denotes v.toNumber n) (hn : n.natAbs ≤ 10000000) :
    dayNumber? v = some n := by
  have hlimit : Denotes 1e7 10000000 := ⟨rfl, by decide +kernel⟩
  have hdays : Denotes (Number.floor v.toNumber) n := hv.toWhole .down
  have hwithin : ¬ (1e7 : Float) < (Number.floor v.toNumber).abs := by
    rw [hlimit.lt_iff hdays.abs]
    omega
  unfold dayNumber?
  dsimp only
  rw [hdays.isNaN, Bool.false_or, decide_eq_false hwithin, hdays.clamp_eq]
  have hnearest : Number.Bounds.signed32.nearest n = n := by
    unfold Number.Bounds.signed32 Number.Bounds.nearest
    dsimp only
    omega
  rw [hnearest]
  rfl

theorem datePart_eq (part : Int → Int) (hv : Denotes v.toNumber n) (hn : n.natAbs ≤ 10000000) :
    datePart part v = .number (Float.ofInt (part n)) := by
  rw [datePart, dayNumber?_eq hv hn]

end Parts

section Dates

variable {month day year : Value} {m d y : Int}

/-- The date of integers that are brought within the ranges of a date's parts. -/
def dateWithin (m d y : Int) : Date :=
  ⟨Number.Bounds.signed32.nearest y, (Number.Bounds.count32.nearest m).toNat,
    (Number.Bounds.count32.nearest d).toNat⟩

theorem nearest_year {y : Int} (hy : -262143 ≤ y ∧ y ≤ 262142 ∨
    -262143 ≤ Number.Bounds.signed32.nearest y ∧ Number.Bounds.signed32.nearest y ≤ 262142) :
    Number.Bounds.signed32.nearest y = y := by
  revert hy
  unfold Number.Bounds.signed32 Number.Bounds.nearest
  dsimp only
  omega

theorem nearest_count {i : Int} (hi : 1 ≤ i ∧ i ≤ 31 ∨
    1 ≤ ((Number.Bounds.count32.nearest i).toNat : Int) ∧
      ((Number.Bounds.count32.nearest i).toNat : Int) ≤ 31) :
    ((Number.Bounds.count32.nearest i).toNat : Int) = i := by
  revert hi
  unfold Number.Bounds.count32 Number.Bounds.nearest
  dsimp only
  omega

theorem dateWithin_eq (h : IsDate y m d) : (dateWithin m d y).year = y ∧
    ((dateWithin m d y).month : Int) = m ∧ ((dateWithin m d y).day : Int) = d :=
  ⟨nearest_year (.inl ⟨h.le_year, h.year_le⟩),
    nearest_count (.inl ⟨h.one_le_month, h.month_le.trans (by decide)⟩),
    nearest_count (.inl ⟨h.one_le_day, h.day_le.trans (Nat.cast_le.mpr (daysIn_le _ _))⟩)⟩

theorem isValid_dateWithin : (dateWithin m d y).isValid = true ↔ IsDate y m d := by
  rw [Date.isValid_iff]
  constructor
  · intro h
    have hyear : (dateWithin m d y).year = y := nearest_year (.inr ⟨h.le_year, h.year_le⟩)
    have hmonth : ((dateWithin m d y).month : Int) = m :=
      nearest_count (.inr ⟨h.one_le_month, h.month_le.trans (by decide)⟩)
    have hday : ((dateWithin m d y).day : Int) = d :=
      nearest_count (.inr ⟨h.one_le_day, h.day_le.trans (Nat.cast_le.mpr (daysIn_le _ _))⟩)
    rwa [hyear, hmonth, hday] at h
  · intro h
    obtain ⟨hyear, hmonth, hday⟩ := dateWithin_eq h
    rwa [hyear, hmonth, hday]

theorem dateWithin_date {date : Date} (h : IsDate date.year date.month date.day) :
    dateWithin date.month date.day date.year = date := by
  obtain ⟨hyear, hmonth, hday⟩ := dateWithin_eq h
  obtain ⟨y, m, d⟩ := date
  exact Date.mk.injEq .. ▸ ⟨hyear, mod_cast hmonth, mod_cast hday⟩

theorem mdy_eq (hm : month.IsInteger m) (hd : day.IsInteger d) (hy : year.IsInteger y) :
    mdy month day year = if (dateWithin m d y).isValid then
      .number (Float.ofInt (dateWithin m d y).toNumber) else .missing := by
  simp only [mdy, hm.present, hd.present, hy.present, hm.denotes.clamp_eq, hd.denotes.clamp_eq,
    hy.denotes.clamp_eq]
  rfl

end Dates

/-! ### Calls -/

structure GivesInteger (today : Int) (name : String) (args : List Value) (i : Int) : Prop where
  call_eq : call today name args = .ok (.number (Float.ofInt i))
  isInteger : (Value.number (Float.ofInt i)).IsInteger i

theorem givesInteger {today i : Int} {f : Function} {args : List Value}
    (hcount : f.arity.refusal? args.length = none)
    (h : f.apply today args = .number (Float.ofInt i)) (hi : i.natAbs < 2 ^ 53) :
    GivesInteger today f.name args i :=
  ⟨(call_name today hcount).trans (congrArg Except.ok h),
    Value.isInteger_number (denotes_ofInt hi)⟩

section Calls

variable {v : Value} {n m d y : Int}

theorem givesInteger_parts (today : Int) (hv : Denotes v.toNumber n) (hn : n.natAbs ≤ 10000000) :
    GivesInteger today "MONTH" [v] (Date.ofNumber n).month ∧
    GivesInteger today "DAY" [v] (Date.ofNumber n).day ∧
    GivesInteger today "YEAR" [v] (Date.ofNumber n).year ∧
    GivesInteger today "WEEKDAY" [v] ((n + 5) % 7 + 1) := by
  have hdate := isDate_ofNumber hn
  have hday := daysIn_le (Date.ofNumber n).year (Date.ofNumber n).month
  obtain ⟨hm1, hm12, hd1, hdle, hylow, hyhigh⟩ := hdate
  refine ⟨givesInteger (f := .MONTH) rfl (datePart_eq _ hv hn) (by omega),
    givesInteger (f := .DAY) rfl (datePart_eq _ hv hn) (by omega),
    givesInteger (f := .YEAR) rfl (datePart_eq _ hv hn) (by omega),
    givesInteger (f := .WEEKDAY) rfl ?_ (by omega)⟩
  have hweekday : ((Calendar.weekday n : Nat) : Int) = (n + 5) % 7 + 1 := by
    unfold Calendar.weekday
    omega
  rw [← hweekday]
  exact datePart_eq (fun n => Calendar.weekday n) hv hn

section Mdy

variable {month day year : Value} (today : Int) (hm : month.IsInteger m) (hd : day.IsInteger d)
  (hy : year.IsInteger y)

include hm hd hy

theorem givesInteger_mdy (h : IsDate y m d) :
    GivesInteger today "MDY" [month, day, year] (dateWithin m d y).toNumber := by
  have hvalid := isValid_dateWithin.mpr h
  refine givesInteger (f := .MDY) rfl ?_ ((Date.isValid_iff _).mp hvalid).natAbs_toNumber_lt
  exact (mdy_eq hm hd hy).trans (if_pos hvalid)

theorem call_mdy_of_not_isDate (h : ¬ IsDate y m d) :
    call today "MDY" [month, day, year] = .ok .missing := by
  refine (call_name (f := .MDY) today rfl).trans (congrArg Except.ok ?_)
  exact (mdy_eq hm hd hy).trans (if_neg (mt isValid_dateWithin.mp h))

theorem call_mdy_eq_missing_iff :
    call today "MDY" [month, day, year] = .ok .missing ↔ ¬ IsDate y m d := by
  refine ⟨fun h hdate => ?_, call_mdy_of_not_isDate today hm hd hy⟩
  have hgives := givesInteger_mdy today hm hd hy hdate
  have hvalue := Except.ok.inj (hgives.call_eq.symm.trans h)
  have hpresent := hgives.isInteger.present
  rw [hvalue] at hpresent
  cases hpresent

theorem givesInteger_parts_mdy {v : Value} (h : call today "MDY" [month, day, year] = .ok v)
    (hpresent : v.isMissing = false) (hle : v.toNumber.abs ≤ 1e7) :
    GivesInteger today "MONTH" [v] m ∧ GivesInteger today "DAY" [v] d ∧
      GivesInteger today "YEAR" [v] y := by
  have hdate : IsDate y m d := by
    by_contra hno
    rw [call_mdy_of_not_isDate today hm hd hy hno] at h
    obtain rfl := Except.ok.inj h
    cases hpresent
  have hgives := givesInteger_mdy today hm hd hy hdate
  obtain rfl := Except.ok.inj (hgives.call_eq.symm.trans h)
  have hnumber := hgives.isInteger.denotes
  have hlimit : Denotes 1e7 10000000 := ⟨rfl, by decide +kernel⟩
  have hn := (hnumber.abs.le_iff hlimit).mp hle
  obtain ⟨hmonth, hday, hyear, -⟩ := givesInteger_parts today hnumber (by omega)
  rw [Date.ofNumber_toNumber ((Date.isValid_iff _).mp (isValid_dateWithin.mpr hdate))]
    at hmonth hday hyear
  obtain ⟨hy', hm', hd'⟩ := dateWithin_eq hdate
  rw [hm'] at hmonth
  rw [hd'] at hday
  rw [hy'] at hyear
  exact ⟨hmonth, hday, hyear⟩

end Mdy

/-- The functions of dates undo each other: a day within ten million of the first one has a month, a
day and a year that form a date, and these give the number again; the week has seven days. Integers
give no number exactly if they form no date, and the parts of a number they give are the
integers. -/
theorem date_functions_inverse (today : Int) :
    (∀ v n, Denotes v.toNumber n → n.natAbs ≤ 10000000 → ∃ m d y, IsDate y m d ∧
      GivesInteger today "MONTH" [v] m ∧ GivesInteger today "DAY" [v] d ∧
      GivesInteger today "YEAR" [v] y ∧ GivesInteger today "WEEKDAY" [v] ((n + 5) % 7 + 1) ∧
      GivesInteger today "MDY"
        [.number (Float.ofInt m), .number (Float.ofInt d), .number (Float.ofInt y)] n) ∧
    (∀ month day year m d y, month.IsInteger m → day.IsInteger d → year.IsInteger y →
      (call today "MDY" [month, day, year] = .ok .missing ↔ ¬ IsDate y m d) ∧
      ∀ v, call today "MDY" [month, day, year] = .ok v → v.isMissing = false →
        v.toNumber.abs ≤ 1e7 → GivesInteger today "MONTH" [v] m ∧
          GivesInteger today "DAY" [v] d ∧ GivesInteger today "YEAR" [v] y) := by
  constructor
  · intro v n hv hn
    obtain ⟨hm, hd, hy, hw⟩ := givesInteger_parts today hv hn
    have hdate := isDate_ofNumber hn
    have hmdy := givesInteger_mdy today hm.isInteger hd.isInteger hy.isInteger hdate
    rw [dateWithin_date hdate, Date.toNumber_ofNumber] at hmdy
    exact ⟨_, _, _, hdate, hm, hd, hy, hw, hmdy⟩
  · intro month day year m d y hm hd hy
    exact ⟨call_mdy_eq_missing_iff today hm hd hy,
      fun v => givesInteger_parts_mdy today hm hd hy⟩

/-- The 29th of February is a day of the fourth year before year zero but not of the hundredth. -/
theorem date_functions_inverse_leapDays :
    GivesInteger 0 "WEEKDAY" [.number (-717277.0)] 5 ∧
    call 0 "MDY" [.number 2.0, .number 29.0, .number (-100.0)] = .ok .missing ∧
    ∃ v, call 0 "MDY" [.number 2.0, .number 29.0, .number (-4.0)] = .ok v ∧
      GivesInteger 0 "MONTH" [v] 2 ∧ GivesInteger 0 "DAY" [v] 29 ∧
      GivesInteger 0 "YEAR" [v] (-4) := by
  have htwo : (Value.number 2.0).IsInteger 2 := Value.isInteger_number ⟨rfl, by decide +kernel⟩
  have hday : (Value.number 29.0).IsInteger 29 := Value.isInteger_number ⟨rfl, by decide +kernel⟩
  have hyear : (Value.number (-4.0)).IsInteger (-4) :=
    Value.isInteger_number ⟨rfl, by decide +kernel⟩
  have hcentury : (Value.number (-100.0)).IsInteger (-100) :=
    Value.isInteger_number ⟨rfl, by decide +kernel⟩
  obtain ⟨hparts, hmdy⟩ := date_functions_inverse 0
  obtain ⟨-, -, -, -, -, -, -, hweekday, -⟩ :=
    hparts (.number (-717277.0)) (-717277) ⟨rfl, by decide +kernel⟩ (by decide)
  obtain ⟨hmissing, -⟩ := hmdy _ _ _ _ _ _ htwo hday hcentury
  obtain ⟨-, hback⟩ := hmdy _ _ _ _ _ _ htwo hday hyear
  have hvalue : call 0 "MDY" [.number 2.0, .number 29.0, .number (-4.0)] =
      .ok (.number (Float.ofInt (-717277))) := call_name (f := .MDY) 0 rfl
  refine ⟨hweekday, hmissing.mpr fun h => absurd h.day_le (by decide), _, hvalue, ?_⟩
  exact hback _ hvalue rfl (by decide +kernel)

end Calls

end Function

end StepLang
