import Mathlib.Tactic
import Reckoner.Time.Calendar

/-!
# Days and dates

The date of a day is a date of the calendar, and it is the date of no other day: numbering it
gives the day back. Years are counted from March, in eras of 400 years; a day of an era is taken
apart into centuries, groups of four years, years and a day of the year.
-/

namespace Reckoner

namespace Date

/-- A date that the calendar has. -/
structure Valid (d : Date) : Prop where
  month_pos : 1 ≤ d.month
  month_le : d.month ≤ 12
  day_pos : 1 ≤ d.day
  /-- The month has the day in that year. -/
  day_le : d.day ≤ daysIn d.month d.year

/-- A day of an era: centuries, groups of four years, years and days that are complete before
it. Only the last year of a group has a day number 365, and of the last group of a century only
if the century is the last of its era. -/
structure EraDay (n century group year day : Int) : Prop where
  /-- An era has four centuries. -/
  century_range : 0 ≤ century ∧ century ≤ 3
  /-- A century has 25 groups of four years. -/
  group_range : 0 ≤ group ∧ group ≤ 24
  /-- A group has four years. -/
  year_range : 0 ≤ year ∧ year ≤ 3
  /-- A year has 366 days at most. -/
  day_range : 0 ≤ day ∧ day ≤ 365
  /-- The last day of 366 is there in leap years alone. -/
  leap : day = 365 → year = 3 ∧ (group = 24 → century = 3)
  /-- The parts make up the day. -/
  eq : n = 36524 * century + 1461 * group + 365 * year + day

theorem eraDay_exists {n : Int} (h0 : 0 ≤ n) (h1 : n < 146097) :
    ∃ century group year day, EraDay n century group year day := by
  obtain ⟨c, hc⟩ : ∃ c, c = min (n / 36524) 3 := ⟨_, rfl⟩
  obtain ⟨g, hg⟩ : ∃ g, g = (n - 36524 * c) / 1461 := ⟨_, rfl⟩
  obtain ⟨y, hy⟩ : ∃ y, y = min ((n - 36524 * c - 1461 * g) / 365) 3 := ⟨_, rfl⟩
  refine ⟨c, g, y, n - 36524 * c - 1461 * g - 365 * y, ?_⟩
  have hc' : 0 ≤ c ∧ c ≤ 3 := by omega
  have hr : 0 ≤ n - 36524 * c ∧ n - 36524 * c ≤ 36524 := by omega
  have hr3 : c < 3 → n - 36524 * c < 36524 := by omega
  have hg' : 0 ≤ g ∧ g ≤ 24 := by omega
  exact ⟨hc', hg', by omega, by omega, by omega, by omega⟩

/-- The year of a day in its era, as `ofDayNumber` computes it. Only the last day of an era is past
four times the days of a common century, which the last term sets right. -/
theorem yearOfEra {n c g y t : Int} (h : EraDay n c g y t) :
    (n - n / 1460 + n / 36524 - n / 146096) / 365 = 100 * c + 4 * g + y := by
  obtain ⟨hc, hg, hy, ht, hleap, hn⟩ := h
  have hends : n / 36524 - n / 146096 = c := by
    by_cases hlast : n = 146096
    · subst hlast
      omega
    · have hday : 1461 * g + 365 * y + t < 36524 := by
        by_cases ht365 : t = 365
        · obtain ⟨rfl, hg24⟩ := hleap ht365
          omega
        · omega
      have hera : n / 146096 = 0 := by omega
      omega
  have hgroups : n / 1460 = 25 * c + g + (24 * c + g + 365 * y + t) / 1460 := by omega
  by_cases hlate : 1460 ≤ 24 * c + g + 365 * y + t
  · have hone : (24 * c + g + 365 * y + t) / 1460 = 1 := by omega
    omega
  · have hzero : (24 * c + g + 365 * y + t) / 1460 = 0 := by omega
    omega

/-- The date with a number of complete eras, a year of the era, and a day of that year, both
counted from March. -/
def ofParts (era year day : Int) : Date :=
  let fromMarch := (5 * day + 2) / 153
  let month := if fromMarch < 10 then fromMarch + 3 else fromMarch - 9
  ⟨if month ≤ 2 then year + era * 400 + 1 else year + era * 400, month.toNat,
    (day - (153 * fromMarch + 2) / 5 + 1).toNat⟩

theorem ofDayNumber_eq (n : Int) : ∃ era c g y t,
    EraDay (n + 306 - era * 146097) c g y t ∧
      ofDayNumber n = ofParts era (100 * c + 4 * g + y) t := by
  obtain ⟨era, hera⟩ : ∃ era, era = (n + 306).fdiv 146097 := ⟨_, rfl⟩
  have hdiv : era = (n + 306) / 146097 := by
    rw [hera, Int.fdiv_eq_ediv_of_nonneg _ (by omega)]
  obtain ⟨c, g, y, t, h⟩ := eraDay_exists (n := n + 306 - era * 146097) (by omega) (by omega)
  refine ⟨era, c, g, y, t, h, ?_⟩
  have hyear := yearOfEra h
  have hc := h.century_range
  have hg := h.group_range
  have hy := h.year_range
  have heq := h.eq
  have hday : n + 306 - era * 146097 - (365 * (100 * c + 4 * g + y) + (100 * c + 4 * g + y) / 4
      - (100 * c + 4 * g + y) / 100) = t := by
    have hgroups : (100 * c + 4 * g + y) / 4 = 25 * c + g := by omega
    have hcenturies : (100 * c + 4 * g + y) / 100 = c := by omega
    rw [hgroups, hcenturies]
    omega
  unfold ofDayNumber ofParts
  simp only [← hera, hyear, hday]

theorem isLeap_iff (year : Int) :
    isLeap year = true ↔ year % 4 = 0 ∧ (year % 100 ≠ 0 ∨ year % 400 = 0) := by
  simp [isLeap]

/-- The last day of a year that is counted from March is the leap day of a leap year. -/
theorem isLeap_of_last {n c g y era : Int} (h : EraDay n c g y 365) :
    isLeap (100 * c + 4 * g + y + era * 400 + 1) = true := by
  obtain ⟨hc, hg, hy, -, hleap, -⟩ := h
  obtain ⟨rfl, hg24⟩ := hleap rfl
  rw [isLeap_iff]
  by_cases h24 : g = 24
  · have := hg24 h24
    omega
  · omega

theorem le_daysIn (month : Nat) (year : Int) : 28 ≤ daysIn month year := by
  unfold daysIn
  split
  · split <;> omega
  · split <;> omega

theorem daysIn_le (month : Nat) (year : Int) : daysIn month year ≤ 31 := by
  unfold daysIn
  split
  · split <;> omega
  · split <;> omega

/-- Every month but February, which is the last one from March, has the days up to the start of the
next month. -/
theorem daysIn_fromMarch {m : Int} (h0 : 0 ≤ m) (h10 : m ≤ 10) (year : Int) :
    (daysIn (if m < 10 then m + 3 else m - 9).toNat year : Int)
      = (153 * (m + 1) + 2) / 5 - (153 * m + 2) / 5 := by
  interval_cases m <;> rfl

/-- **The date of a day is a date of the calendar.** -/
theorem valid_ofDayNumber (n : Int) : (ofDayNumber n).Valid := by
  obtain ⟨era, c, g, y, t, h, heq⟩ := ofDayNumber_eq n
  rw [heq]
  have ht := h.day_range
  obtain ⟨m, hm⟩ : ∃ m, m = (5 * t + 2) / 153 := ⟨_, rfl⟩
  have hm11 : 0 ≤ m ∧ m ≤ 11 := by omega
  unfold ofParts
  simp only [← hm]
  refine ⟨by simp only; split <;> omega, by simp only; split <;> omega, by simp only; omega, ?_⟩
  simp only
  by_cases hfebruary : m = 11
  · subst hfebruary
    by_cases hleapDay : t = 365
    · subst hleapDay
      have hleap : isLeap (100 * c + 4 * g + y + era * 400 + 1) = true := isLeap_of_last h
      simp [daysIn, hleap]
    · exact le_trans (by omega) (le_daysIn 2 _)
  · have hdays := daysIn_fromMarch hm11.1 (by omega)
      (if (if m < 10 then m + 3 else m - 9) ≤ 2 then 100 * c + 4 * g + y + era * 400 + 1
        else 100 * c + 4 * g + y + era * 400)
    omega

/-- **Numbering the date of a day gives the day back.** -/
theorem dayNumber_ofDayNumber (n : Int) : (ofDayNumber n).dayNumber = n := by
  obtain ⟨era, c, g, y, t, h, heq⟩ := ofDayNumber_eq n
  rw [heq]
  obtain ⟨hc, hg, hy, ht, -, hn⟩ := h
  obtain ⟨m, hm⟩ : ∃ m, m = (5 * t + 2) / 153 := ⟨_, rfl⟩
  have hm11 : 0 ≤ m ∧ m ≤ 11 := by omega
  unfold dayNumber ofParts
  simp only [← hm, Int.fdiv_eq_ediv_of_nonneg _ (show (0 : Int) ≤ 400 by omega)]
  by_cases hlow : m < 10
  · simp only [if_pos hlow]
    have h1 : ¬ m + 3 ≤ 2 := by omega
    have h2 : ¬ (m + 3).toNat ≤ 2 := by omega
    have h3 : 2 < (m + 3).toNat := by omega
    simp only [if_neg h1, if_neg h2, if_pos h3]
    omega
  · simp only [if_neg hlow]
    have h1 : m - 9 ≤ 2 := by omega
    have h2 : (m - 9).toNat ≤ 2 := by omega
    have h3 : ¬ 2 < (m - 9).toNat := by omega
    simp only [if_pos h1, if_pos h2, if_neg h3]
    omega

/-- The days of the years from 0 to 9999. -/
theorem dayNumber_range {n : Int} (h0 : 0 ≤ (ofDayNumber n).year)
    (h1 : (ofDayNumber n).year ≤ 9999) : -1000 ≤ n ∧ n ≤ 3660000 := by
  have hn := dayNumber_ofDayNumber n
  have hv := valid_ofDayNumber n
  generalize ofDayNumber n = d at *
  obtain ⟨hm1, hm12, hd1, hd⟩ := hv
  have hd31 : d.day ≤ 31 := hd.trans (daysIn_le d.month d.year)
  unfold dayNumber at hn
  simp only [Int.fdiv_eq_ediv_of_nonneg _ (show (0 : Int) ≤ 400 by omega)] at hn
  split at hn <;> split at hn <;> omega

end Date

end Reckoner
