/-!
# Calendar dates

A `Date` is a day of the proleptic Gregorian calendar, with a year zero.  The type carries the proof
that the day exists, so there is no 30 February to think about later.

Days are also numbered, day 0 being 1 January of year 1.  `dayNumber` counts the days before a
date, and `ofDayNumber` finds the date of a number by taking off whole cycles of 400, 100, 4 and 1
years.  Shifting an instant by an offset goes through these numbers.

Years outside 0 to 9999 are written with a sign, and every year has at least four digits.
-/

set_option autoImplicit false

namespace EntityQuery

namespace Calendar

/-- Every fourth year is a leap year, except centuries that 400 does not divide. -/
def isLeap (year : Int) : Bool := year % 4 == 0 && (year % 100 != 0 || year % 400 == 0)

def daysInYear (leap : Bool) : Nat := if leap then 366 else 365

def daysInMonth (leap : Bool) (month : Nat) : Nat :=
  match month with
  | 2 => if leap then 29 else 28
  | 4 | 6 | 9 | 11 => 30
  | _ => 31

/-- Days of the year before the first of a month. -/
def daysBeforeMonth (leap : Bool) (month : Nat) : Nat :=
  let extra := if leap then 1 else 0
  match month with
  | 0 | 1 => 0
  | 2 => 31
  | 3 => 59 + extra
  | 4 => 90 + extra
  | 5 => 120 + extra
  | 6 => 151 + extra
  | 7 => 181 + extra
  | 8 => 212 + extra
  | 9 => 243 + extra
  | 10 => 273 + extra
  | 11 => 304 + extra
  | _ => 334 + extra

/-- The month that holds a day of the year, counted from zero. -/
def monthOfDay (leap : Bool) (n : Nat) : Nat :=
  let extra := if leap then 1 else 0
  if n < 31 then 1
  else if n < 59 + extra then 2
  else if n < 90 + extra then 3
  else if n < 120 + extra then 4
  else if n < 151 + extra then 5
  else if n < 181 + extra then 6
  else if n < 212 + extra then 7
  else if n < 243 + extra then 8
  else if n < 273 + extra then 9
  else if n < 304 + extra then 10
  else if n < 334 + extra then 11
  else 12

/-- A day exists when its month does and the month is long enough. -/
def IsDay (year : Int) (month day : Nat) : Prop :=
  (1 ≤ month ∧ month ≤ 12) ∧ 1 ≤ day ∧ day ≤ daysInMonth (isLeap year) month

instance (year : Int) (month day : Nat) : Decidable (IsDay year month day) :=
  inferInstanceAs (Decidable (_ ∧ _))

/-- A day of the year falls inside its month. -/
theorem daysBeforeMonth_monthOfDay_le (leap : Bool) (n : Nat) (h : n < daysInYear leap) :
    (1 ≤ monthOfDay leap n ∧ monthOfDay leap n ≤ 12) ∧
      daysBeforeMonth leap (monthOfDay leap n) ≤ n ∧
      n < daysBeforeMonth leap (monthOfDay leap n) + daysInMonth leap (monthOfDay leap n) := by
  cases leap
  · exact (by decide +kernel : ∀ n < 365, (1 ≤ monthOfDay false n ∧ monthOfDay false n ≤ 12) ∧
      daysBeforeMonth false (monthOfDay false n) ≤ n ∧
      n < daysBeforeMonth false (monthOfDay false n) + daysInMonth false (monthOfDay false n)) n h
  · exact (by decide +kernel : ∀ n < 366, (1 ≤ monthOfDay true n ∧ monthOfDay true n ≤ 12) ∧
      daysBeforeMonth true (monthOfDay true n) ≤ n ∧
      n < daysBeforeMonth true (monthOfDay true n) + daysInMonth true (monthOfDay true n)) n h

end Calendar

open Calendar

/-- A day of the proleptic Gregorian calendar. -/
structure Date where
  year : Int
  month : Nat
  day : Nat
  isDay : IsDay year month day
deriving DecidableEq

namespace Date

/-- The date with these numbers, if there is one. -/
def ofNumbers? (year : Int) (month day : Nat) : Option Date :=
  if h : IsDay year month day then some ⟨year, month, day, h⟩ else none

/-- The date of a day of the year, counted from zero. -/
def ofDayOfYear (year : Int) (n : Nat) (h : n < daysInYear (isLeap year)) : Date where
  year := year
  month := monthOfDay (isLeap year) n
  day := n - daysBeforeMonth (isLeap year) (monthOfDay (isLeap year) n) + 1
  isDay := by
    have := daysBeforeMonth_monthOfDay_le (isLeap year) n h
    refine ⟨this.1, by omega, by omega⟩

/-- Days from 1 January of year 1 to 1 January of a year. -/
def daysBeforeYear (year : Int) : Int :=
  let y := year - 1
  365 * y + y / 4 - y / 100 + y / 400

/-- How many days a date lies after 1 January of year 1. -/
def dayNumber (d : Date) : Int :=
  daysBeforeYear d.year + daysBeforeMonth (isLeap d.year) d.month + (d.day : Int) - 1

/-- The year of a day number, and the day of that year. -/
def yearOfDay (n : Int) : Int × Nat :=
  let cycle := n / 146097
  let inCycle := n % 146097
  let century := min (inCycle / 36524) 3
  let inCentury := inCycle - century * 36524
  let quad := inCentury / 1461
  let inQuad := inCentury % 1461
  let single := min (inQuad / 365) 3
  (cycle * 400 + century * 100 + quad * 4 + single + 1, (inQuad - single * 365).toNat)

/-- The last year of a run of four is a leap year, unless it ends one of the first three centuries
of a cycle; but those are a day shorter and have no such day. -/
theorem isLeap_of_last_day {cycle century quad : Int} (hq : 0 ≤ quad ∧ quad ≤ 24) (h : quad = 24 → century = 3) :
    isLeap (cycle * 400 + century * 100 + quad * 4 + 3 + 1) = true := by
  simp only [isLeap, Bool.and_eq_true, Bool.or_eq_true, beq_iff_eq, bne_iff_ne]
  refine ⟨by omega, ?_⟩
  by_cases h24 : quad = 24
  · have := h h24
    right; omega
  · left; omega

theorem yearOfDay_lt (n : Int) : (yearOfDay n).2 < daysInYear (isLeap (yearOfDay n).1) := by
  simp only [yearOfDay]
  generalize hr : n % 146097 = r
  generalize n / 146097 = cycle
  have hr0 : 0 ≤ r := by omega
  have hr1 : r < 146097 := by omega
  generalize hc : min (r / 36524) 3 = century
  have hc' : 0 ≤ century ∧ century ≤ 3 := by omega
  generalize hi : r - century * 36524 = inCentury
  have hi0 : 0 ≤ inCentury ∧ (inCentury < 36524 ∨ inCentury = 36524 ∧ century = 3) := by omega
  generalize hq : inCentury / 1461 = quad
  generalize hm : inCentury % 1461 = inQuad
  by_cases hlast : inQuad = 1460
  · have hleap := @isLeap_of_last_day cycle century quad (by omega) (by omega)
    have h4 : min ((1460 : Int) / 365) 3 = 3 := by decide
    subst hlast
    rw [h4, hleap]
    decide
  · have : (inQuad - min (inQuad / 365) 3 * 365).toNat < 365 := by omega
    unfold daysInYear
    split <;> omega

/-- The date of a day number. -/
def ofDayNumber (n : Int) : Date := ofDayOfYear (yearOfDay n).1 (yearOfDay n).2 (yearOfDay_lt n)

/-- A number with zeros in front up to a width. -/
def padded (width n : Nat) : String :=
  let ds := Nat.repr n
  String.ofList (List.replicate (width - ds.length) '0') ++ ds

/-- The text of a year: four digits, and a sign as soon as it is not one of 0 to 9999. -/
def yearText (year : Int) : String :=
  if 0 ≤ year ∧ year ≤ 9999 then padded 4 year.toNat
  else if year < 0 then "-" ++ padded 4 year.natAbs
  else "+" ++ padded 4 year.natAbs

/-- The text of a date, `2020-01-02`. -/
def text (d : Date) : String :=
  yearText d.year ++ "-" ++ padded 2 d.month ++ "-" ++ padded 2 d.day

end Date

end EntityQuery
