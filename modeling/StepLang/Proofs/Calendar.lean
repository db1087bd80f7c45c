import Mathlib.Tactic.IntervalCases
import StepLang.Calendar

/-! # Dates and their numbers

Every number of a day is that of one date of the Gregorian calendar, and the next number is that of
the next day. A year is found from the cycles of 400, 100 and 4 years, and the month from the
lengths of the months before it.
-/

namespace StepLang.Calendar

/-! ### The rules of the calendar -/

/-- A year divisible by four that ends no century, or ends one of four centuries. -/
def LeapYear (year : Int) : Prop := 4 ∣ year ∧ (¬ 100 ∣ year ∨ 400 ∣ year)

instance (year : Int) : Decidable (LeapYear year) := inferInstanceAs (Decidable (_ ∧ _))

def daysIn (year month : Int) : Nat :=
  if month = 2 then if LeapYear year then 29 else 28
  else if month ∈ [4, 6, 9, 11] then 30
  else 31

theorem daysIn_pos (year month : Int) : 0 < daysIn year month := by
  unfold daysIn
  split <;> split <;> decide

theorem daysIn_le (year month : Int) : daysIn year month ≤ 31 := by
  unfold daysIn
  split <;> split <;> decide

/-- A date of the Gregorian calendar, in the years that the calendar reaches. -/
structure IsDate (year month day : Int) : Prop where
  one_le_month : 1 ≤ month
  month_le : month ≤ 12
  one_le_day : 1 ≤ day
  day_le : day ≤ daysIn year month
  le_year : -262143 ≤ year
  year_le : year ≤ 262142

theorem isLeap_iff {year : Int} : isLeap year = true ↔ LeapYear year := by
  simp only [isLeap, LeapYear, Bool.and_eq_true, Bool.or_eq_true, beq_iff_eq, bne_iff_ne, ne_eq,
    Int.dvd_iff_emod_eq_zero]

theorem getElem?_monthLengths (year : Int) {month : Nat} (h1 : 1 ≤ month) (h12 : month ≤ 12) :
    (monthLengths year)[month - 1]? = some (daysIn year month) := by
  have hfebruary : (if isLeap year = true then 29 else 28 : Nat) = daysIn year 2 := by
    simp only [daysIn, isLeap_iff, if_true]
  unfold monthLengths
  rw [hfebruary]
  interval_cases month <;> rfl

theorem Date.isValid_iff (d : Date) : d.isValid = true ↔ IsDate d.year d.month d.day := by
  unfold isValid
  rw [Bool.and_eq_true, Bool.and_eq_true, decide_eq_true_iff, decide_eq_true_iff]
  constructor
  · rintro ⟨⟨⟨hy, hy'⟩, hm, hd⟩, hlen⟩
    have h12 : d.month ≤ 12 := by
      by_contra hlt
      rw [List.getElem?_eq_none (by change 12 ≤ d.month - 1; omega)] at hlen
      cases hlen
    rw [getElem?_monthLengths d.year hm h12] at hlen
    exact ⟨by omega, by omega, by omega, mod_cast of_decide_eq_true hlen, hy, hy'⟩
  · intro h
    have hm : 1 ≤ d.month := by exact_mod_cast h.one_le_month
    rw [getElem?_monthLengths d.year hm (by exact_mod_cast h.month_le)]
    exact ⟨⟨⟨h.le_year, h.year_le⟩, hm, by exact_mod_cast h.one_le_day⟩,
      decide_eq_true (by exact_mod_cast h.day_le)⟩

/-! ### Months -/

def total (lengths : List Nat) : Nat := lengths.foldl (· + ·) 0

theorem total_cons (length : Nat) (lengths : List Nat) :
    total (length :: lengths) = length + total lengths := by
  unfold total
  rw [List.foldl_cons, Nat.add_comm, List.foldl_assoc]

theorem total_take_add_le {lengths : List Nat} {k length : Nat} (hk : lengths[k]? = some length) :
    total (lengths.take k) + length ≤ total lengths := by
  induction lengths generalizing k with
  | nil => cases hk
  | cons a lengths ih =>
    rw [total_cons]
    cases k with
    | zero =>
      obtain rfl := Option.some.inj hk
      change 0 + a ≤ _
      omega
    | succ k =>
      have := ih (k := k) hk
      rw [List.take_succ_cons, total_cons]
      omega

theorem exists_month {lengths : List Nat} {days : Nat} (h : days < total lengths) :
    ∃ k length i, lengths[k]? = some length ∧ i < length ∧
      days = total (lengths.take k) + i := by
  induction lengths generalizing days with
  | nil => exact absurd h (Nat.not_lt_zero _)
  | cons a lengths ih =>
    rw [total_cons] at h
    by_cases ha : days < a
    · exact ⟨0, a, days, rfl, ha, (Nat.zero_add _).symm⟩
    · obtain ⟨k, length, i, hk, hi, hdays⟩ := ih (show days - a < total lengths by omega)
      refine ⟨k + 1, length, i, hk, hi, ?_⟩
      rw [List.take_succ_cons, total_cons]
      omega

theorem monthAndDay_eq {lengths : List Nat} {month k length i : Nat}
    (hk : lengths[k]? = some length) (hi : i < length) :
    monthAndDay lengths month (total (lengths.take k) + i) = (month + k, i + 1) := by
  induction lengths generalizing k month with
  | nil => cases hk
  | cons a lengths ih =>
    cases k with
    | zero =>
      obtain rfl := Option.some.inj hk
      rw [show total (List.take 0 (a :: lengths)) = 0 from rfl, Nat.zero_add, monthAndDay,
        if_pos hi]
      rfl
    | succ k =>
      rw [List.take_succ_cons, total_cons, monthAndDay, if_neg (by omega),
        show a + total (lengths.take k) + i - a = total (lengths.take k) + i by omega,
        ih hk, Nat.add_assoc, Nat.add_comm 1]

theorem monthAndDay_monthLengths (year : Int) {month i : Nat} (h1 : 1 ≤ month) (h12 : month ≤ 12)
    (hi : i < daysIn year month) :
    monthAndDay (monthLengths year) 1 (daysBeforeMonth year month + i) = (month, i + 1) := by
  have h : monthAndDay (monthLengths year) 1 (daysBeforeMonth year month + i) =
      (1 + (month - 1), i + 1) := monthAndDay_eq (getElem?_monthLengths year h1 h12) hi
  rwa [Nat.add_sub_cancel' h1] at h

/-! ### Years -/

def yearLength (year : Int) : Nat := if LeapYear year then 366 else 365

theorem yearLength_le (year : Int) : yearLength year ≤ 366 := by
  unfold yearLength
  split <;> decide

theorem total_monthLengths (year : Int) : total (monthLengths year) = yearLength year := by
  unfold monthLengths yearLength
  rw [← if_congr isLeap_iff rfl rfl]
  split <;> rfl

theorem daysBeforeYear_succ (year : Int) :
    daysBeforeYear (year + 1) = daysBeforeYear year + yearLength year := by
  unfold daysBeforeYear yearLength
  split
  · rename_i h
    unfold LeapYear at h
    dsimp only
    omega
  · rename_i h
    unfold LeapYear at h
    dsimp only
    omega

theorem daysBeforeYear_mono {a b : Int} (h : a ≤ b) : daysBeforeYear a ≤ daysBeforeYear b := by
  unfold daysBeforeYear
  dsimp only
  omega

theorem year_unique {a b : Int} {i j : Nat} (hi : i < yearLength a) (hj : j < yearLength b)
    (h : daysBeforeYear a + i = daysBeforeYear b + j) : a = b := by
  have hlt {a b : Int} {i j : Nat} (hi : i < yearLength a)
      (h : daysBeforeYear a + i = daysBeforeYear b + j) : ¬ a < b := by
    intro hab
    have hnext := daysBeforeYear_succ a
    have hle := daysBeforeYear_mono (Int.add_one_le_of_lt hab)
    omega
  exact Int.le_antisymm (Int.not_lt.mp (hlt hj h.symm)) (Int.not_lt.mp (hlt hi h))

section Cycles

/-! A cycle of 400 years is cut into centuries, a century into cycles of four years and these into
single years. The last part of each is a day longer than the others, or may be. -/

variable {century leapCycle single day : Nat}

theorem daysBeforeYear_cycles (cycle : Int) (hc : century ≤ 3) (hl : leapCycle ≤ 24)
    (hs : single ≤ 3) :
    daysBeforeYear (400 * cycle + (100 * century + 4 * leapCycle + single + 1 : Nat)) =
      146097 * cycle + (36524 * century + 1461 * leapCycle + 365 * single : Nat) := by
  unfold daysBeforeYear
  dsimp only
  omega

theorem lt_yearLength_cycles (cycle : Int)
    (h : day < 365 ∨ day = 365 ∧ single = 3 ∧ (leapCycle = 24 → century = 3))
    (hl : leapCycle ≤ 24) :
    day < yearLength (400 * cycle + (100 * century + 4 * leapCycle + single + 1 : Nat)) := by
  unfold yearLength
  split
  · omega
  · rename_i hleap
    unfold LeapYear at hleap
    omega

/-- The parts in which a day of a cycle of 400 years lies. -/
theorem cycles_of_day {n : Nat} (hn : n < 146097) (hcentury : century = min (n / 36524) 3)
    (hleap : leapCycle = (n - century * 36524) / 1461)
    (hsingle : single = min ((n - century * 36524) % 1461 / 365) 3)
    (hday : day = (n - century * 36524) % 1461 - single * 365) :
    leapCycle ≤ 24 ∧ n = 36524 * century + 1461 * leapCycle + 365 * single + day ∧
      (day < 365 ∨ day = 365 ∧ single = 3 ∧ (leapCycle = 24 → century = 3)) := by
  obtain ⟨left, hleft, hlt⟩ : ∃ left, n = century * 36524 + left ∧
      (left < 36524 ∨ century = 3 ∧ left = 36524) := ⟨n - century * 36524, by omega, by omega⟩
  rw [hleft, Nat.add_sub_cancel_left] at hleap hsingle hday
  obtain ⟨rest, hrest⟩ : ∃ rest, left % 1461 = rest := ⟨_, rfl⟩
  rw [hrest] at hsingle hday
  have hparts := Nat.div_add_mod left 1461
  rw [← hleap, hrest] at hparts
  have hrest_lt : rest < 1461 := hrest ▸ Nat.mod_lt _ (by decide)
  omega

end Cycles

/-! ### Dates -/

theorem exists_year (n : Int) : ∃ year day, day < yearLength year ∧
    daysBeforeYear year + day = n + epoch ∧
    Date.ofNumber n = ⟨year, (monthAndDay (monthLengths year) 1 day).1,
      (monthAndDay (monthLengths year) 1 day).2⟩ := by
  refine ⟨_, _, ?_, ?_, rfl⟩
  · obtain ⟨hl, -, hday⟩ := cycles_of_day (n := ((n + epoch) % 146097).toNat) (by omega) rfl rfl
      rfl rfl
    exact lt_yearLength_cycles _ hday hl
  · obtain ⟨hl, hn, -⟩ := cycles_of_day (n := ((n + epoch) % 146097).toNat) (by omega) rfl rfl
      rfl rfl
    rw [daysBeforeYear_cycles _ (Nat.min_le_right _ _) hl (Nat.min_le_right _ _)]
    omega

theorem exists_ofNumber (n : Int) : ∃ (year : Int) (month day : Nat), 1 ≤ month ∧ month ≤ 12 ∧
    day < daysIn year month ∧
    daysBeforeYear year + (daysBeforeMonth year month + day : Nat) = n + epoch ∧
    Date.ofNumber n = ⟨year, month, day + 1⟩ := by
  obtain ⟨year, i, hi, hn, heq⟩ := exists_year n
  rw [← total_monthLengths] at hi
  obtain ⟨k, length, day, hk, hday, rfl⟩ := exists_month hi
  have hk12 : k < 12 := (List.getElem?_eq_some_iff.mp hk).1
  obtain rfl : length = daysIn year (k + 1 : Nat) :=
    Option.some.inj (hk.symm.trans (getElem?_monthLengths year (show 1 ≤ k + 1 by omega) hk12))
  refine ⟨year, k + 1, day, by omega, hk12, hday, hn, ?_⟩
  rw [heq, monthAndDay_eq hk hday, Nat.add_comm 1]

theorem daysBeforeMonth_add_lt {year : Int} {month day : Nat} (h1 : 1 ≤ month) (h12 : month ≤ 12)
    (hday : day < daysIn year month) : daysBeforeMonth year month + day < yearLength year := by
  have hle := total_take_add_le (getElem?_monthLengths year h1 h12)
  rw [total_monthLengths] at hle
  exact (Nat.add_lt_add_left hday _).trans_le hle

theorem ofNumber_eq {n year : Int} {month day : Nat} (h1 : 1 ≤ month) (h12 : month ≤ 12)
    (hday : day < daysIn year month)
    (hn : daysBeforeYear year + (daysBeforeMonth year month + day : Nat) = n + epoch) :
    Date.ofNumber n = ⟨year, month, day + 1⟩ := by
  obtain ⟨year', month', day', h1', h12', hday', hn', heq⟩ := exists_ofNumber n
  obtain rfl := year_unique (daysBeforeMonth_add_lt h1' h12' hday')
    (daysBeforeMonth_add_lt h1 h12 hday) (hn'.trans hn.symm)
  have hplace := monthAndDay_monthLengths year' h1' h12' hday'
  rw [show daysBeforeMonth year' month' + day' = daysBeforeMonth year' month + day by omega,
    monthAndDay_monthLengths year' h1 h12 hday] at hplace
  obtain ⟨rfl, hday⟩ := Prod.mk.inj hplace
  rw [heq, hday]

theorem Date.toNumber_mk (year : Int) (month day : Nat) :
    toNumber ⟨year, month, day + 1⟩ =
      daysBeforeYear year + (daysBeforeMonth year month + day : Nat) - epoch := by
  unfold toNumber
  dsimp only
  omega

theorem Date.toNumber_ofNumber (n : Int) : (ofNumber n).toNumber = n := by
  obtain ⟨year, month, day, -, -, -, hn, heq⟩ := exists_ofNumber n
  rw [heq, toNumber_mk, hn, Int.add_sub_cancel]

theorem Date.ofNumber_toNumber {d : Date} (h : IsDate d.year d.month d.day) :
    ofNumber d.toNumber = d := by
  obtain ⟨year, month, day⟩ := d
  obtain ⟨day, rfl⟩ := Nat.exists_eq_add_of_le' (show 1 ≤ day by exact_mod_cast h.one_le_day)
  refine ofNumber_eq (mod_cast h.one_le_month) (mod_cast h.month_le) (mod_cast h.day_le) ?_
  rw [toNumber_mk, Int.sub_add_cancel]

/-- The days up to ten million around the first one lie within the years of the calendar. -/
theorem isDate_ofNumber {n : Int} (hn : n.natAbs ≤ 10000000) :
    IsDate (Date.ofNumber n).year (Date.ofNumber n).month (Date.ofNumber n).day := by
  obtain ⟨year, month, day, h1, h12, hday, hplace, heq⟩ := exists_ofNumber n
  have hlt := daysBeforeMonth_add_lt h1 h12 hday
  have hlen := yearLength_le year
  rw [heq]
  unfold daysBeforeYear epoch at hplace
  dsimp only at hplace ⊢
  exact ⟨by omega, by omega, by omega, by omega, by omega, by omega⟩

/-- The days of the calendar are fewer than a hundred million in either direction. -/
theorem IsDate.natAbs_toNumber_le {d : Date} (h : IsDate d.year d.month d.day) :
    d.toNumber.natAbs ≤ 100000000 := by
  obtain ⟨year, month, day⟩ := d
  obtain ⟨day, rfl⟩ := Nat.exists_eq_add_of_le' (show 1 ≤ day by exact_mod_cast h.one_le_day)
  have hlt : daysBeforeMonth year month + day < yearLength year := daysBeforeMonth_add_lt
    (mod_cast h.one_le_month) (mod_cast h.month_le) (mod_cast h.day_le)
  have hlen := yearLength_le year
  have hlow : -262143 ≤ year := h.le_year
  have hhigh : year ≤ 262142 := h.year_le
  rw [Date.toNumber_mk]
  unfold daysBeforeYear epoch
  dsimp only
  omega

theorem IsDate.natAbs_toNumber_lt {d : Date} (h : IsDate d.year d.month d.day) :
    d.toNumber.natAbs < 2 ^ 53 :=
  h.natAbs_toNumber_le.trans_lt (by decide)

def Date.next (d : Date) : Date :=
  if d.day < daysIn d.year d.month then { d with day := d.day + 1 }
  else if d.month < 12 then ⟨d.year, d.month + 1, 1⟩
  else ⟨d.year + 1, 1, 1⟩

theorem daysBeforeMonth_add_daysIn {year : Int} {month : Nat} (h1 : 1 ≤ month) (h12 : month ≤ 12) :
    daysBeforeMonth year month + daysIn year month =
      if month < 12 then daysBeforeMonth year (month + 1) else yearLength year := by
  have hfebruary : daysIn year 2 = if isLeap year = true then 29 else 28 := by
    simp only [daysIn, isLeap_iff, if_true]
  rw [← total_monthLengths]
  unfold daysBeforeMonth monthLengths
  rw [← hfebruary]
  interval_cases month
  all_goals rfl

theorem Date.ofNumber_add_one (n : Int) : ofNumber (n + 1) = (ofNumber n).next := by
  obtain ⟨year, month, day, h1, h12, hday, hn, heq⟩ := exists_ofNumber n
  have hsum : daysBeforeMonth year month + daysIn year month =
      if month < 12 then daysBeforeMonth year (month + 1) else yearLength year :=
    daysBeforeMonth_add_daysIn h1 h12
  rw [heq, next]
  dsimp only
  split
  · rename_i hlt
    exact ofNumber_eq h1 h12 hlt (by omega)
  · rename_i hlast
    split
    · rename_i hlt
      rw [if_pos hlt] at hsum
      exact ofNumber_eq (by omega) hlt (daysIn_pos _ _) (by omega)
    · rename_i hlt
      rw [if_neg hlt] at hsum
      refine ofNumber_eq (by decide) (by decide) (daysIn_pos _ _) ?_
      have hnext := daysBeforeYear_succ year
      change daysBeforeYear (year + 1) + (0 + 0 : Nat) = _
      omega

example : Date.ofNumber 0 = ⟨1960, 1, 1⟩ := by decide

theorem IsDate.toNumber_next {d : Date} (h : IsDate d.year d.month d.day) :
    d.next.toNumber = d.toNumber + 1 := by
  have hd : Date.ofNumber d.toNumber = d := Date.ofNumber_toNumber h
  calc d.next.toNumber = (Date.ofNumber d.toNumber).next.toNumber := by rw [hd]
    _ = (Date.ofNumber (d.toNumber + 1)).toNumber := by rw [Date.ofNumber_add_one]
    _ = d.toNumber + 1 := Date.toNumber_ofNumber _

/-- The days of the week follow each other, the first behind the seventh. -/
theorem IsDate.weekday_next {d : Date} (h : IsDate d.year d.month d.day) :
    weekday d.next.toNumber = weekday d.toNumber % 7 + 1 := by
  rw [h.toNumber_next, weekday, weekday]
  omega

-- a Friday
example : weekday (Date.toNumber ⟨1960, 1, 1⟩) = 6 := by decide

end StepLang.Calendar
