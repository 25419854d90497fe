import EntityQuery.Calendar.Reader

/-!
# Days and their numbers

Days are numbered without a gap: every number is that of one date (`Date.dayNumber_ofDayNumber`,
`Date.dayNumber_injective`).  So an instant, in seconds, lies in exactly one day, and moving a
local time by its offset finds that day (`Calendar.holds_utcDay`, `Calendar.Holds.unique`).

The years of such days stay in the range that dates are read in: an offset is less than a day, and the
year of a timestamp has four digits.
-/

set_option autoImplicit false

namespace EntityQuery

open Calendar

namespace Date

/-! ## Years -/

theorem daysBeforeYear_mono {y z : Int} (h : y ≤ z) : daysBeforeYear y ≤ daysBeforeYear z := by
  simp only [daysBeforeYear]
  omega

theorem daysBeforeYear_succ (year : Int) :
    daysBeforeYear (year + 1) = daysBeforeYear year + daysInYear (isLeap year) := by
  have hleap : isLeap year = true ↔ year % 4 = 0 ∧ (year % 100 ≠ 0 ∨ year % 400 = 0) := by
    simp only [isLeap, Bool.and_eq_true, Bool.or_eq_true, beq_iff_eq, bne_iff_ne]
  simp only [daysBeforeYear, daysInYear]
  split <;> rename_i h <;> rw [hleap] at h <;> omega

/-- A year and a day of it, from the cycles that a number is made of. -/
theorem daysBeforeYear_yearOfDay (n : Int) :
    daysBeforeYear (yearOfDay n).1 + (yearOfDay n).2 = n := by
  have hsum := Int.mul_ediv_add_emod n 146097
  simp only [yearOfDay]
  generalize hr : n % 146097 = r at *
  generalize n / 146097 = cycle at *
  have hr' : 0 ≤ r ∧ r < 146097 := by omega
  generalize hc : min (r / 36524) 3 = century
  have hc' : 0 ≤ century ∧ century ≤ 3 := by omega
  generalize hi : r - century * 36524 = inCentury
  have hi' : 0 ≤ inCentury ∧ inCentury ≤ 36524 := by omega
  generalize hq : inCentury / 1461 = quad
  generalize hm : inCentury % 1461 = inQuad
  have hq' : 0 ≤ quad ∧ quad ≤ 24 := by omega
  have hm' : 0 ≤ inQuad ∧ inQuad < 1461 := by omega
  generalize hs : min (inQuad / 365) 3 = single
  have hs' : 0 ≤ single ∧ single ≤ 3 := by omega
  -- The cycles are what dividing the year by 4, 100 and 400 leaves of it.
  have h4 : (cycle * 400 + century * 100 + quad * 4 + single) / 4 =
      cycle * 100 + century * 25 + quad := by omega
  have h100 : (cycle * 400 + century * 100 + quad * 4 + single) / 100 = cycle * 4 + century := by
    omega
  have h400 : (cycle * 400 + century * 100 + quad * 4 + single) / 400 = cycle := by omega
  simp only [daysBeforeYear, Int.add_sub_cancel, h4, h100, h400]
  omega

/-! ## Months -/

/-- A month ends before a later one begins. -/
theorem daysBeforeMonth_lt : ∀ leap, ∀ month ≤ 12, ∀ later ≤ 12, month < later → 1 ≤ month →
    daysBeforeMonth leap month + daysInMonth leap month ≤ daysBeforeMonth leap later := by
  decide

/-- A month ends with the year or before. -/
theorem daysBeforeMonth_add_le : ∀ leap, ∀ month ≤ 12, 1 ≤ month →
    daysBeforeMonth leap month + daysInMonth leap month ≤ daysInYear leap := by
  decide

/-! ## Dates -/

theorem dayNumber_ofDayNumber (n : Int) : (ofDayNumber n).dayNumber = n := by
  have hmonth := (daysBeforeMonth_monthOfDay_le _ _ (yearOfDay_lt n)).2.1
  have hyear := daysBeforeYear_yearOfDay n
  simp only [ofDayNumber, ofDayOfYear, dayNumber]
  omega

/-- A date lies in its year. -/
theorem dayNumber_mem_year (d : Date) :
    daysBeforeYear d.year ≤ d.dayNumber ∧ d.dayNumber < daysBeforeYear (d.year + 1) := by
  obtain ⟨⟨hfirst, hlast⟩, hday, hday'⟩ := d.isDay
  have := daysBeforeMonth_add_le (isLeap d.year) d.month hlast hfirst
  rw [daysBeforeYear_succ, dayNumber]
  omega

theorem dayNumber_injective {d e : Date} (h : d.dayNumber = e.dayNumber) : d = e := by
  have hd := d.dayNumber_mem_year
  have he := e.dayNumber_mem_year
  -- The year is the one whose range the number lies in, and so is the month.
  have hyear : d.year = e.year := by
    rcases Int.lt_trichotomy d.year e.year with hlt | heq | hlt
    · have := daysBeforeYear_mono (show d.year + 1 ≤ e.year from hlt)
      omega
    · exact heq
    · have := daysBeforeYear_mono (show e.year + 1 ≤ d.year from hlt)
      omega
  obtain ⟨⟨hd1, hd12⟩, hdday, hdday'⟩ := d.isDay
  obtain ⟨⟨he1, he12⟩, heday, heday'⟩ := e.isDay
  rw [dayNumber, dayNumber, hyear] at h
  rw [hyear] at hdday'
  have hmonth : d.month = e.month := by
    rcases Nat.lt_trichotomy d.month e.month with hlt | heq | hlt
    · have := daysBeforeMonth_lt (isLeap e.year) d.month hd12 e.month he12 hlt hd1
      omega
    · exact heq
    · have := daysBeforeMonth_lt (isLeap e.year) e.month he12 d.month hd12 hlt he1
      omega
  rw [hmonth] at h
  have hday : d.day = e.day := by omega
  cases d
  cases e
  simp only [Date.mk.injEq]
  exact ⟨hyear, hmonth, hday⟩

/-- A year from the range that its day numbers lie in. -/
theorem year_mem_of_dayNumber {d : Date} {first last : Int}
    (h : daysBeforeYear first ≤ d.dayNumber) (h' : d.dayNumber < daysBeforeYear (last + 1)) :
    first ≤ d.year ∧ d.year ≤ last := by
  have hd := d.dayNumber_mem_year
  constructor
  · refine Int.not_lt.1 fun hlt => ?_
    have := daysBeforeYear_mono (show d.year + 1 ≤ first from hlt)
    omega
  · refine Int.not_lt.1 fun hlt => ?_
    have := daysBeforeYear_mono (show last + 1 ≤ d.year from hlt)
    omega

end Date

namespace Calendar

/-! ## Instants -/

/-- Seconds from the beginning of year 1 to a local time that is ahead of Coordinated Universal Time
by an offset. -/
def instant (date : Date) (second : Nat) (offset : Int) : Int :=
  date.dayNumber * 86400 + second - offset

/-- Whether an instant lies in a day. -/
def Holds (d : Date) (instant : Int) : Prop :=
  d.dayNumber * 86400 ≤ instant ∧ instant < (d.dayNumber + 1) * 86400

theorem Holds.unique {d e : Date} {instant : Int} (hd : Holds d instant) (he : Holds e instant) :
    d = e := by
  obtain ⟨hd, hd'⟩ := hd
  obtain ⟨he, he'⟩ := he
  exact Date.dayNumber_injective (by omega)

/-- **The day of a timestamp is the one that its instant lies in.** -/
theorem holds_utcDay (date : Date) (clock : Clock) (offset : Int) :
    Holds (utcDay date clock offset) (instant date clock.second offset) := by
  rw [Holds, utcDay, Date.dayNumber_ofDayNumber, instant]
  omega

/-- Dates in the range of years that is read. -/
def IsSupported (d : Date) : Prop := minYear ≤ d.year ∧ d.year ≤ maxYear

theorem dateOf?_eq_some {year : Int} {month day : Nat} {d : Date} :
    dateOf? year month day = some d ↔
      IsSupported d ∧ d.year = year ∧ d.month = month ∧ d.day = day := by
  rw [dateOf?, IsSupported]
  constructor
  · intro h
    split at h
    · next hrange =>
      rw [Date.ofNumbers?] at h
      split at h
      · obtain rfl := Option.some.inj h
        exact ⟨hrange, rfl, rfl, rfl⟩
      · cases h
    · cases h
  · rintro ⟨hrange, rfl, rfl, rfl⟩
    rw [if_pos hrange, Date.ofNumbers?, dif_pos d.isDay]

/-- An offset of less than a day leads out of the years with four digits by a day at most. -/
theorem isSupported_utcDay {date : Date} (hyear : 0 ≤ date.year ∧ date.year ≤ 9999) (clock : Clock)
    {offset : Int} (hoffset : -86400 ≤ offset ∧ offset ≤ 86400) :
    IsSupported (utcDay date clock offset) := by
  have hday := date.dayNumber_mem_year
  have hclock := clock.second_lt
  have hfirst := Date.daysBeforeYear_mono hyear.1
  have hlast := Date.daysBeforeYear_mono (show date.year + 1 ≤ 10000 by omega)
  have hmin : Date.daysBeforeYear minYear + 2 ≤ Date.daysBeforeYear 0 := by decide
  have hmax : Date.daysBeforeYear 10000 + 2 ≤ Date.daysBeforeYear (maxYear + 1) := by decide
  refine Date.year_mem_of_dayNumber ?_ ?_ <;> rw [utcDay, Date.dayNumber_ofDayNumber] <;> omega

end Calendar

end EntityQuery
