import EntityQuery.Calendar.Clock
import EntityQuery.Text.Blank

/-!
# Reading dates

A text that is to be a date may be written in three ways, tried in this order:

1. an **internet timestamp** `2021-03-05T01:00:00+02:00`: every number at its full width, `T`, `t`
   or a space in the middle, an offset that is not left out.  It names an instant, and the date is
   the day of that instant in Coordinated Universal Time;
2. a **plain date** `2021-03-05`;
3. a **local date and time** `2021-03-05T01:00:00.5`, whose date is taken as it stands.

In the last two a number may have white space in front of it and fewer digits than usual, and a
year may have a sign and then any number of digits.  In all three a second may be 60, and nothing
may follow.

The readers take a list of characters and return what they read with the rest of the list.
-/

set_option autoImplicit false

namespace EntityQuery

namespace Calendar

/-- A reader of the beginning of a text. -/
abbrev Reads (α : Type) := List Char → Option (α × List Char)

/-- Takes the digits a text begins with, `limit` of them at most. -/
def takeDigits : Nat → Nat → List Char → Nat × Nat × List Char
  | 0, n, cs => (0, n, cs)
  | _ + 1, n, [] => (0, n, [])
  | limit + 1, n, c :: r =>
    if c.isDigit then
      let (count, m, rest) := takeDigits limit (n * 10 + (c.toNat - '0'.toNat)) r
      (count + 1, m, rest)
    else (0, n, c :: r)

/-- A number of `least` to `most` digits. -/
def number (least most : Nat) : Reads Nat := fun cs =>
  let (count, n, rest) := takeDigits most 0 cs
  if least ≤ count then some (n, rest) else none

/-- One given character. -/
def char (c : Char) : Reads Unit
  | [] => none
  | d :: r => if d = c then some ((), r) else none

/-- The part of a second behind its point, in nanoseconds; digits past the ninth are skipped. -/
def fraction : Reads Nat := fun cs =>
  let (count, n, rest) := takeDigits 9 0 cs
  if 1 ≤ count then some (n * Nat.pow 10 (9 - count), rest.dropWhile Char.isDigit) else none

/-- A fraction of a second, if a point announces one. -/
def optionalFraction : Reads Nat
  | '.' :: r => fraction r
  | cs => some (0, cs)

/-- A clock from the numbers read; second 60 is a leap second. -/
def clockOf? (hour minute second nano : Nat) : Option Clock :=
  if second = 60 then Clock.ofNumbers? hour minute 59 (nano + 1000000000)
  else Clock.ofNumbers? hour minute second nano

/-- The first year of the supported range. -/
def minYear : Int := -262143

/-- The last year of the supported range. -/
def maxYear : Int := 262142

/-- A date from the numbers read, in the supported range of years. -/
def dateOf? (year : Int) (month day : Nat) : Option Date :=
  if minYear ≤ year ∧ year ≤ maxYear then Date.ofNumbers? year month day else none

/-- The offset of a timestamp from Coordinated Universal Time, in seconds. -/
def offset : Reads Int
  | 'Z' :: r => some (0, r)
  | 'z' :: r => some (0, r)
  | sign :: r => do
    let negative ← if sign = '+' then some false
      else if sign = '-' ∨ sign = '\u2212' then some true else none
    let (hours, r) ← number 2 2 r
    let ((), r) ← char ':' r
    let (minutes, r) ← number 2 2 r
    if hours < 24 ∧ minutes < 60 then
      let seconds : Int := hours * 3600 + minutes * 60
      some (if negative then -seconds else seconds, r)
    else none
  | [] => none

/-- The mark between the date and the time of an internet timestamp. -/
def separator : Reads Unit
  | 'T' :: r => some ((), r)
  | 't' :: r => some ((), r)
  | ' ' :: r => some ((), r)
  | _ => none

/-- The day that a local date and time fall on in Coordinated Universal Time. -/
def utcDay (date : Date) (clock : Clock) (offset : Int) : Date :=
  Date.ofDayNumber (date.dayNumber + ((clock.second : Int) - offset) / 86400)

/-- The day of an internet timestamp. -/
def internetTimestamp? (cs : List Char) : Option Date := do
  let (year, r) ← number 4 4 cs
  let ((), r) ← char '-' r
  let (month, r) ← number 2 2 r
  let ((), r) ← char '-' r
  let (day, r) ← number 2 2 r
  let ((), r) ← separator r
  let (hour, r) ← number 2 2 r
  let ((), r) ← char ':' r
  let (minute, r) ← number 2 2 r
  let ((), r) ← char ':' r
  let (second, r) ← number 2 2 r
  let (nano, r) ← optionalFraction r
  let (shift, r) ← offset r
  if r.isEmpty then
    let date ← dateOf? year month day
    let clock ← clockOf? hour minute second nano
    some (utcDay date clock shift)
  else none

/-- A number of at most two digits, white space allowed in front. -/
def looseNumber : Reads Nat := fun cs => number 1 2 (Text.trimStart cs)

/-- A year: at most four digits, or a sign and any number of digits. -/
def looseYear : Reads Int := fun cs =>
  match Text.trimStart cs with
  | '-' :: r => (number 1 r.length r).map fun (n, rest) => (-(n : Int), rest)
  | '+' :: r => (number 1 r.length r).map fun (n, rest) => ((n : Int), rest)
  | r => (number 1 4 r).map fun (n, rest) => ((n : Int), rest)

/-- Year, month and day with hyphens between. -/
def looseDay : Reads (Int × Nat × Nat) := fun cs => do
  let (year, r) ← looseYear cs
  let ((), r) ← char '-' r
  let (month, r) ← looseNumber r
  let ((), r) ← char '-' r
  let (day, r) ← looseNumber r
  some ((year, month, day), r)

/-- A plain date. -/
def plainDate? (cs : List Char) : Option Date := do
  let ((year, month, day), r) ← looseDay cs
  if r.isEmpty then dateOf? year month day else none

/-- The date of a local date and time. -/
def localTimestamp? (cs : List Char) : Option Date := do
  let ((year, month, day), r) ← looseDay cs
  let ((), r) ← char 'T' r
  let (hour, r) ← looseNumber r
  let ((), r) ← char ':' r
  let (minute, r) ← looseNumber r
  let ((), r) ← char ':' r
  let (second, r) ← looseNumber r
  let (nano, r) ← optionalFraction r
  if r.isEmpty then
    let date ← dateOf? year month day
    let _ ← clockOf? hour minute second nano
    some date
  else none

end Calendar

/-- The date that a text names, in any of the three ways to write one. -/
def Date.ofText? (s : String) : Option Date :=
  Calendar.internetTimestamp? s.toList <|> Calendar.plainDate? s.toList
    <|> Calendar.localTimestamp? s.toList

end EntityQuery
