import EntityQuery.Calendar.Date

/-!
# Times of day and instants

A `Clock` is a time of day down to the nanosecond.  A leap second has no place among the 86400
seconds of a day; it is kept as a second billion of nanoseconds after second 59 of a minute, and
written as second 60.

A `Timestamp` is a clock on a date, in Coordinated Universal Time.
-/

set_option autoImplicit false

namespace EntityQuery

/-- A time of day. -/
structure Clock where
  /-- Seconds since midnight. -/
  second : Nat
  /-- Nanoseconds, a billion and more inside a leap second. -/
  nano : Nat
  second_lt : second < 86400
  nano_lt : nano < 2000000000
  leap_at_end : 1000000000 ≤ nano → second % 60 = 59
deriving DecidableEq

namespace Clock

/-- The clock at a second of the day. -/
def ofSecond? (second nano : Nat) : Option Clock :=
  if h : second < 86400 ∧ nano < 2000000000 ∧ (1000000000 ≤ nano → second % 60 = 59) then
    some ⟨second, nano, h.1, h.2.1, h.2.2⟩
  else none

/-- The clock that shows these numbers. -/
def ofNumbers? (hour minute second nano : Nat) : Option Clock :=
  if hour < 24 ∧ minute < 60 ∧ second < 60 then
    ofSecond? (hour * 3600 + minute * 60 + second) nano
  else none

def hour (c : Clock) : Nat := c.second / 3600

def minute (c : Clock) : Nat := c.second / 60 % 60

/-- The second that is shown; 60 inside a leap second. -/
def shownSecond (c : Clock) : Nat := c.second % 60 + c.nano / 1000000000

/-- Nanoseconds since the second that is shown. -/
def shownNano (c : Clock) : Nat := c.nano % 1000000000

/-- Hours, minutes and seconds, `03:04:05`. -/
def secondsText (c : Clock) : String :=
  Date.padded 2 c.hour ++ ":" ++ Date.padded 2 c.minute ++ ":" ++ Date.padded 2 c.shownSecond

/-- The fraction of a second in three, six or nine places, as few as hold it; none for zero. -/
def fractionText (nano : Nat) : String :=
  if nano = 0 then ""
  else if nano % 1000000 = 0 then "." ++ Date.padded 3 (nano / 1000000)
  else if nano % 1000 = 0 then "." ++ Date.padded 6 (nano / 1000)
  else "." ++ Date.padded 9 nano

/-- The text of a time of day, with as much of its fraction as there is. -/
def text (c : Clock) : String := c.secondsText ++ fractionText c.shownNano

/-- The text of a time of day in whole milliseconds, what is smaller cut off. -/
def millisecondText (c : Clock) : String :=
  c.secondsText ++ "." ++ Date.padded 3 (c.shownNano / 1000000)

end Clock

/-- An instant, as date and time in Coordinated Universal Time. -/
structure Timestamp where
  date : Date
  clock : Clock
deriving DecidableEq

namespace Timestamp

/-- The day number of 1 January 1970. -/
def epochDay : Int := 719162

/-- The instant a number of seconds after the beginning of 1970. -/
def ofUnix? (seconds : Int) (nano : Nat) : Option Timestamp :=
  (Clock.ofSecond? (seconds % 86400).toNat nano).map
    (⟨Date.ofDayNumber (epochDay + seconds / 86400), ·⟩)

/-- The text of an instant in milliseconds, `2020-01-02T03:04:05.000Z`. -/
def text (t : Timestamp) : String := t.date.text ++ "T" ++ t.clock.millisecondText ++ "Z"

/-- The text of an instant with as much of its fraction as there is. -/
def fullText (t : Timestamp) : String := t.date.text ++ "T" ++ t.clock.text ++ "Z"

end Timestamp

end EntityQuery
