import LedgerExport.Time.Instant

/-!
# The calendar counts days both ways

`toDays_ofDays` says that a date that is made from a count of days gives the count back, and
`valid_date` that the date of an instant is one of the calendar. An era's days are cut into years at
`yearStart`, and the quotient by which `ofDays` finds the year of a day is right at the first and at
the last day of each of the 400 years; as it never falls, it is right between them too.
-/

namespace LedgerExport.Time

namespace Date

/-- The days of an era before a year. -/
def yearStart (y : Int) : Int := 365 * y + y / 4 - y / 100

/-- The year of an era that a day of it lies in. -/
def yearAt (d : Int) : Int := (d - d / 1460 + d / 36524 - d / 146096) / 365

/-- The year is right at the first and the last day of each year. -/
theorem yearAt_ends {y : Int} (h0 : 0 ≤ y) (h : y < 400) :
    yearAt (yearStart y) = y ∧ yearAt (yearStart (y + 1) - 1) = y := by
  have htable : ∀ y : Fin 400,
      yearAt (yearStart y) = y ∧ yearAt (yearStart (y + 1) - 1) = y := by decide +kernel
  have hy := htable ⟨y.toNat, by omega⟩
  simpa [Int.toNat_of_nonneg h0] using hy

/-- The year never falls. -/
theorem yearAt_mono {d d' : Int} (h : d ≤ d') : yearAt d ≤ yearAt d' := by
  have hcentury : d' / 146096 - d / 146096 ≤ d' / 36524 - d / 36524 := by omega
  have hquad : d' / 1460 - d / 1460 ≤ d' - d := by omega
  unfold yearAt
  omega

/-- A day of an era lies within its year. -/
theorem yearStart_le {d : Int} (h0 : 0 ≤ d) (h : d ≤ 146096) :
    0 ≤ yearAt d ∧ yearAt d ≤ 399 ∧ yearStart (yearAt d) ≤ d ∧
      (d < yearStart (yearAt d + 1) ∨ d = 146096) := by
  have hlow : 0 ≤ yearAt d := yearAt_mono h0
  have hhigh : yearAt d ≤ 399 := yearAt_mono h
  refine ⟨hlow, hhigh, Int.not_lt.1 fun hlt => ?_, ?_⟩
  · -- The day before a year lies in the year before.
    by_cases hfirst : yearAt d = 0
    · rw [hfirst] at hlt
      unfold yearStart at hlt
      omega
    have hends := (yearAt_ends (y := yearAt d - 1) (by omega) (by omega)).2
    rw [Int.sub_add_cancel] at hends
    have hmono : yearAt d ≤ yearAt (yearStart (yearAt d) - 1) :=
      yearAt_mono (by omega)
    omega
  · -- The first day of the next year lies in that year.
    by_cases hlast : yearAt d = 399
    · rw [hlast]
      unfold yearStart
      omega
    refine .inl (Int.not_le.1 fun hge => ?_)
    have hends := (yearAt_ends (y := yearAt d + 1) (by omega) (by omega)).1
    have hmono : yearAt (yearStart (yearAt d + 1)) ≤ yearAt d := yearAt_mono hge
    omega

/-- Only a leap year, counted from March on, has a day 365. -/
theorem leap_of_dayOfYear {d : Int} (h0 : 0 ≤ d) (h : d ≤ 146096)
    (hday : d - yearStart (yearAt d) = 365) (era : Int) :
    isLeapYear (era * 400 + yearAt d + 1) = true := by
  obtain ⟨hlow, hhigh, -, hend⟩ := yearStart_le h0 h
  have hleap : (yearAt d + 1) % 4 = 0 ∧ ((yearAt d + 1) % 100 ≠ 0 ∨ (yearAt d + 1) % 400 = 0) := by
    -- The next year starts 366 days later only if a fourth year begins that is no hundredth.
    have hfours : (yearAt d + 1) / 4 = yearAt d / 4 ∨
        (yearAt d + 1) / 4 = yearAt d / 4 + 1 ∧ (yearAt d + 1) % 4 = 0 := by omega
    have hcenturies : (yearAt d + 1) / 100 = yearAt d / 100 ∧ (yearAt d + 1) % 100 ≠ 0 ∨
        (yearAt d + 1) / 100 = yearAt d / 100 + 1 := by omega
    rcases hend with hend | rfl
    · unfold yearStart at hend hday
      omega
    · decide
  simp only [isLeapYear, Bool.and_eq_true, Bool.or_eq_true, beq_iff_eq, bne_iff_ne]
  omega

/-- The months but February have as many days in each year. -/
theorem daysInMonth_eq {m : Nat} (h : m ≠ 2) (y y' : Int) : daysInMonth y m = daysInMonth y' m := by
  unfold daysInMonth
  split <;> first | rfl | exact absurd rfl h

/-- The day of the month that a day of the year has lies in its month, where January and February
come last and only day 365 is a twenty-ninth of February. -/
theorem day_le_of_dayOfYear (k : Nat) (h : k < 366) :
    let m := (5 * k + 2) / 153
    let day := k - (153 * m + 2) / 5 + 1
    (m < 10 → day ≤ daysInMonth 0 (m + 3)) ∧ (m = 10 → day ≤ 31) ∧
      (m = 11 → day ≤ 28 ∨ k = 365 ∧ day = 29) := by
  have htable : ∀ k : Fin 366,
      let m := (5 * k.val + 2) / 153
      let day := k.val - (153 * m + 2) / 5 + 1
      (m < 10 → day ≤ daysInMonth 0 (m + 3)) ∧ (m = 10 → day ≤ 31) ∧
        (m = 11 → day ≤ 28 ∨ k.val = 365 ∧ day = 29) := by decide +kernel
  exact htable ⟨k, h⟩

variable (n : Int)

/-- The day of its era that a day lies in. -/
def dayOfEra : Int := (n + 719468) % 146097

/-- The day of its year, counted from March on. -/
def dayOfYear : Int := dayOfEra n - yearStart (yearAt (dayOfEra n))

/-- The month of its year, counted from March on. -/
def monthOfYear : Int := (5 * dayOfYear n + 2) / 153

/-- The parts of a day's date lie in the ranges that a calendar has for them. -/
theorem parts_ofDays :
    (0 ≤ yearAt (dayOfEra n) ∧ yearAt (dayOfEra n) ≤ 399) ∧
      (0 ≤ dayOfYear n ∧ dayOfYear n ≤ 365) ∧ (0 ≤ monthOfYear n ∧ monthOfYear n ≤ 11) := by
  have h0 : 0 ≤ dayOfEra n := Int.emod_nonneg _ (by decide)
  have h : dayOfEra n ≤ 146096 := by unfold dayOfEra; omega
  obtain ⟨hlow, hhigh, hstart, hend⟩ := yearStart_le h0 h
  have hday : 0 ≤ dayOfYear n ∧ dayOfYear n ≤ 365 := by
    refine ⟨by unfold dayOfYear; omega, ?_⟩
    rcases hend with hend | hend
    · unfold dayOfYear
      unfold yearStart at *
      omega
    · unfold dayOfYear
      rw [hend]
      decide
  refine ⟨⟨hlow, hhigh⟩, hday, ?_⟩
  unfold monthOfYear
  omega

/-- The date of a day by its parts. -/
theorem ofDays_eq : ofDays n =
    if monthOfYear n < 10 then
      ⟨(n + 719468) / 146097 * 400 + yearAt (dayOfEra n), (monthOfYear n + 3).toNat,
        (dayOfYear n - (153 * monthOfYear n + 2) / 5 + 1).toNat⟩
    else
      ⟨(n + 719468) / 146097 * 400 + yearAt (dayOfEra n) + 1, (monthOfYear n - 9).toNat,
        (dayOfYear n - (153 * monthOfYear n + 2) / 5 + 1).toNat⟩ := rfl

/-- The days to a date by the parts of its count. -/
theorem toDays_of_parts {era y m : Int} {day : Nat} (hy : 0 ≤ y ∧ y ≤ 399) (hm : 0 ≤ m ∧ m ≤ 11) :
    toDays (if m < 10 then ⟨era * 400 + y, (m + 3).toNat, day⟩
      else ⟨era * 400 + y + 1, (m - 9).toNat, day⟩) =
    era * 146097 + yearStart y + ((153 * m + 2) / 5 + day - 1) - 719468 := by
  have hyear : (era * 400 + y) / 400 = era ∧ (era * 400 + y) % 400 = y := by omega
  unfold yearStart toDays
  split
  · have hmonth : (((m + 3).toNat : Int) + 9) % 12 = m := by omega
    simp only [hmonth, if_neg (show ¬(m + 3).toNat ≤ 2 by omega), hyear.1, hyear.2]
    omega
  · have hmonth : (((m - 9).toNat : Int) + 9) % 12 = m := by omega
    simp only [hmonth, if_pos (show (m - 9).toNat ≤ 2 by omega), Int.add_sub_cancel, hyear.1,
      hyear.2]
    omega

/-- A date that is made from a count of days gives the count back. -/
theorem toDays_ofDays : (ofDays n).toDays = n := by
  obtain ⟨hyear, hday, hmonth⟩ := parts_ofDays n
  have hera : (n + 719468) / 146097 * 146097 + dayOfEra n = n + 719468 := by
    unfold dayOfEra
    omega
  have hstart : dayOfEra n = yearStart (yearAt (dayOfEra n)) + dayOfYear n := by
    unfold dayOfYear
    omega
  have hfirst : (153 * monthOfYear n + 2) / 5 ≤ dayOfYear n := by
    unfold monthOfYear
    omega
  rw [ofDays_eq, toDays_of_parts hyear hmonth, Int.toNat_of_nonneg (by omega)]
  omega

/-- A date that is made from a count of days has a month and a day of the calendar. -/
theorem day_ofDays :
    1 ≤ (ofDays n).day ∧ (ofDays n).day ≤ daysInMonth (ofDays n).year (ofDays n).month := by
  obtain ⟨⟨hlow, hhigh⟩, ⟨hday, hday'⟩, hmonth, hmonth'⟩ := parts_ofDays n
  obtain ⟨hmost, hjanuary, hfebruary⟩ := day_le_of_dayOfYear (dayOfYear n).toNat (by omega)
  have hm : monthOfYear n = ((5 * (dayOfYear n).toNat + 2) / 153 : Nat) := by
    unfold monthOfYear
    omega
  generalize hk : (5 * (dayOfYear n).toNat + 2) / 153 = k at *
  have hd : (dayOfYear n - (153 * monthOfYear n + 2) / 5 + 1).toNat =
      (dayOfYear n).toNat - (153 * k + 2) / 5 + 1 := by omega
  rw [ofDays_eq]
  split
  · -- March to December, which are as long in every year.
    dsimp only
    rw [hd, hm, show ((k : Int) + 3).toNat = k + 3 by omega]
    refine ⟨by omega, ?_⟩
    by_cases hthree : k + 3 = 2
    · omega
    rw [daysInMonth_eq hthree _ 0]
    exact hmost (by omega)
  · dsimp only
    rw [hd, hm]
    refine ⟨by omega, ?_⟩
    -- January and February of the next year.
    obtain rfl | rfl : k = 10 ∨ k = 11 := by omega
    · exact hjanuary rfl
    rcases hfebruary rfl with hle | ⟨hlast, hle⟩
    · refine Nat.le_trans hle ?_
      show 28 ≤ if isLeapYear _ = true then 29 else 28
      split <;> decide
    · have hleap : isLeapYear ((n + 719468) / 146097 * 400 + yearAt (dayOfEra n) + 1) = true :=
        leap_of_dayOfYear (Int.emod_nonneg _ (by decide)) (Int.le_of_lt_add_one
          (Int.emod_lt_of_pos _ (by decide))) (show dayOfYear n = 365 by omega) _
      show _ ≤ if isLeapYear _ = true then 29 else 28
      rw [if_pos hleap]
      exact Nat.le_of_eq hle

/-- The days of the calendar lie in its years. -/
theorem year_ofDays (h : -96465292 ≤ n) (h' : n ≤ 95026236) :
    yearRange.1 ≤ (ofDays n).year ∧ (ofDays n).year ≤ yearRange.2 := by
  obtain ⟨⟨hlow, hhigh⟩, ⟨hday, hday'⟩, hmonth, hmonth'⟩ := parts_ofDays n
  have hera : (n + 719468) / 146097 * 146097 + dayOfEra n = n + 719468 := by
    unfold dayOfEra
    omega
  have hstart : dayOfEra n = yearStart (yearAt (dayOfEra n)) + dayOfYear n := by
    unfold dayOfYear
    omega
  have hmarch : monthOfYear n < 10 ↔ dayOfYear n < 306 := by
    unfold monthOfYear
    omega
  unfold yearStart at hstart
  -- Only the first and the last era are cut by the ends of the calendar.
  have heras : (n + 719468) / 146097 = -656 ∨
      -655 ≤ (n + 719468) / 146097 ∧ (n + 719468) / 146097 ≤ 654 ∨
      (n + 719468) / 146097 = 655 := by omega
  rw [ofDays_eq]
  show (-262143 : Int) ≤ _ ∧ _ ≤ (262142 : Int)
  rcases heras with hera' | hera' | hera' <;> split <;> dsimp only <;> omega

/-- A month has at most 31 days, and none when it is no month. -/
theorem daysInMonth_le (y : Int) (m : Nat) :
    daysInMonth y m ≤ 31 ∧ (12 < m → daysInMonth y m = 0) := by
  unfold daysInMonth
  split <;> first | exact ⟨by split <;> decide, by omega⟩ | exact ⟨by decide, by omega⟩

/-- The numbers of the month and the day of a date of the calendar. -/
theorem Valid.le {d : Date} (h : d.Valid) : d.month ≤ 12 ∧ d.day ≤ 31 := by
  obtain ⟨-, -, hday, hday'⟩ := h
  obtain ⟨hmost, hnone⟩ := daysInMonth_le d.year d.month
  refine ⟨Nat.not_lt.1 fun hlt => ?_, Nat.le_trans hday' hmost⟩
  rw [hnone hlt] at hday'
  omega

/-! ## The date of a count of days -/

/-- A day of an era that lies in a year's days is one of that year. -/
theorem yearAt_eq {y k : Int} (hy : 0 ≤ y ∧ y ≤ 399) (hk : 0 ≤ k)
    (hlast : yearStart y + k < yearStart (y + 1) ∨ yearStart y + k = 146096 ∧ y = 399) :
    yearAt (yearStart y + k) = y := by
  obtain ⟨hfirst, hend⟩ := yearAt_ends hy.1 (show y < 400 by omega)
  rcases hlast with hlast | ⟨hlast, rfl⟩
  · have hlow : yearAt (yearStart y) ≤ yearAt (yearStart y + k) := yearAt_mono (by omega)
    have hhigh : yearAt (yearStart y + k) ≤ yearAt (yearStart (y + 1) - 1) :=
      yearAt_mono (by omega)
    omega
  · rw [hlast]
    decide

/-- A count of days by its parts is the date with these parts. -/
theorem ofDays_of_parts {era y m : Int} {day : Nat} (hy : 0 ≤ y ∧ y ≤ 399) (hm : 0 ≤ m)
    (hday : 1 ≤ day) (hmonth : (5 * ((153 * m + 2) / 5 + day - 1) + 2) / 153 = m)
    (hyear : yearStart y + ((153 * m + 2) / 5 + day - 1) < yearStart (y + 1) ∨
      yearStart y + ((153 * m + 2) / 5 + day - 1) = 146096 ∧ y = 399) :
    ofDays (era * 146097 + yearStart y + ((153 * m + 2) / 5 + day - 1) - 719468) =
      if m < 10 then ⟨era * 400 + y, (m + 3).toNat, day⟩
      else ⟨era * 400 + y + 1, (m - 9).toNat, day⟩ := by
  have hyearAt := yearAt_eq hy (by omega) hyear
  generalize hk : (153 * m + 2) / 5 + day - 1 = k at *
  have hstart : 0 ≤ yearStart y ∧ yearStart (y + 1) ≤ 146096 := by
    unfold yearStart
    omega
  -- The parts are found again one after the other.
  have hdays : era * 146097 + yearStart y + k - 719468 + 719468 =
      yearStart y + k + 146097 * era := by omega
  have hera : (era * 146097 + yearStart y + k - 719468 + 719468) / 146097 = era := by
    rw [hdays, Int.add_mul_ediv_left _ _ (by decide), Int.ediv_eq_zero_of_lt (by omega) (by omega),
      Int.zero_add]
  have hdayOfEra : dayOfEra (era * 146097 + yearStart y + k - 719468) = yearStart y + k := by
    rw [dayOfEra, hdays, Int.add_mul_emod_self_left]
    exact Int.emod_eq_of_lt (by omega) (by omega)
  have hdayOfYear : dayOfYear (era * 146097 + yearStart y + k - 719468) = k := by
    rw [dayOfYear, hdayOfEra, hyearAt]
    omega
  have hmonthOfYear : monthOfYear (era * 146097 + yearStart y + k - 719468) = m := by
    rw [monthOfYear, hdayOfYear, hmonth]
  rw [ofDays_eq, hmonthOfYear, hdayOfYear, hdayOfEra, hyearAt, hera,
    show (k - (153 * m + 2) / 5 + 1).toNat = day by omega]

/-- The months begin where the quotient by which `ofDays` finds them says, and only a leap year has
a day 365. -/
theorem month_of_day {d : Date} (h : d.Valid) :
    let m : Int := (d.month + 9) % 12
    (5 * ((153 * m + 2) / 5 + d.day - 1) + 2) / 153 = m ∧
      ((153 * m + 2) / 5 + d.day - 1 < 365 ∨
        (153 * m + 2) / 5 + d.day - 1 = 365 ∧ d.month = 2 ∧ isLeapYear d.year = true) := by
  obtain ⟨-, -, hday, hday'⟩ := h
  obtain ⟨year, month, day⟩ := d
  dsimp only at *
  unfold daysInMonth at hday'
  split at hday'
  -- February is the month whose length the year decides.
  case h_12 =>
    split at hday'
    · rename_i hleap
      exact ⟨by omega, by simp only [hleap, and_true]; omega⟩
    · exact ⟨by omega, by omega⟩
  all_goals exact ⟨by omega, by omega⟩

/-- A date of the calendar has a month. -/
theorem Valid.one_le_month {d : Date} (h : d.Valid) : 1 ≤ d.month := by
  obtain ⟨-, -, hday, hday'⟩ := h
  refine Nat.pos_of_ne_zero fun hzero => ?_
  have hnone : daysInMonth d.year d.month = 0 := by
    rw [hzero]
    rfl
  omega

/-- A year counted from March on, with the month of that year, is the year and month of a date. -/
theorem ofMarch {d : Date} (h : d.Valid) : ∃ y m : Int, (0 ≤ m ∧ m ≤ 11) ∧
    m = (d.month + 9) % 12 ∧ (d.month = 2 → d.year = y + 1) ∧
      (if m < 10 then ⟨y / 400 * 400 + y % 400, (m + 3).toNat, d.day⟩
        else ⟨y / 400 * 400 + y % 400 + 1, (m - 9).toNat, d.day⟩) = d := by
  have hlow := h.one_le_month
  have hhigh := h.le.1
  obtain ⟨year, month, day⟩ := d
  dsimp only at *
  by_cases hmarch : month ≤ 2
  · refine ⟨year - 1, month + 9, by omega, by omega, by omega, ?_⟩
    rw [if_neg (by omega), Int.ediv_mul_add_emod, Int.sub_add_cancel, Int.add_sub_cancel,
      Int.toNat_natCast]
  · refine ⟨year, month - 3, by omega, by omega, by omega, ?_⟩
    rw [if_pos (by omega), Int.ediv_mul_add_emod, Int.sub_add_cancel, Int.toNat_natCast]

/-- The days to a date of the calendar give the date back. -/
theorem ofDays_toDays {d : Date} (h : d.Valid) : ofDays d.toDays = d := by
  obtain ⟨hmonth, hday⟩ := month_of_day h
  obtain ⟨y, m, hm, hmarch, htwo, hd⟩ := ofMarch h
  rw [← hmarch] at hmonth hday
  have hrange : 0 ≤ y % 400 ∧ y % 400 ≤ 399 := by omega
  have hend : yearStart (y % 400) + ((153 * m + 2) / 5 + d.day - 1) < yearStart (y % 400 + 1) ∨
      yearStart (y % 400) + ((153 * m + 2) / 5 + d.day - 1) = 146096 ∧ y % 400 = 399 := by
    generalize (153 * m + 2) / 5 + d.day - 1 = k at *
    unfold yearStart
    rcases hday with hday | ⟨rfl, hfebruary, hleap⟩
    · omega
    · -- A day 365 is the last day of February in a leap year.
      simp only [isLeapYear, Bool.and_eq_true, Bool.or_eq_true, beq_iff_eq, bne_iff_ne,
        htwo hfebruary] at hleap
      omega
  have htoDays : d.toDays =
      y / 400 * 146097 + yearStart (y % 400) + ((153 * m + 2) / 5 + d.day - 1) - 719468 := by
    rw [← toDays_of_parts hrange hm, hd]
  rw [htoDays, ofDays_of_parts hrange hm.1 h.2.2.1 hmonth hend, hd]

end Date

namespace Instant

variable (t : Instant)

/-- The date of an instant is one of the calendar. -/
theorem valid_date : t.date.Valid := by
  obtain ⟨hfirst, hlast⟩ := t.inRange
  unfold firstSecond at hfirst
  unfold lastSecond at hlast
  obtain ⟨hyear, hyear'⟩ := Date.year_ofDays (t.seconds / 86400) (by omega) (by omega)
  obtain ⟨hday, hday'⟩ := Date.day_ofDays (t.seconds / 86400)
  exact ⟨hyear, hyear', hday, hday'⟩

/-- The date of an instant counts its days. -/
theorem toDays_date : t.date.toDays = t.seconds / 86400 := Date.toDays_ofDays _

end Instant

end LedgerExport.Time
