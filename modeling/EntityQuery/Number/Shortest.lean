import EntityQuery.Number.Binary64

/-!
# The fewest digits that read back

Every double is the nearest one to a whole interval of real numbers: those that rounding takes to
it.  `Shortest.digits` finds the decimal with the fewest digits in that interval, and of several
with equally few the one nearest to the double itself.  Two may be equally near; a `Tie` says which it is then.

The interval of `m · 2^e` reaches half a step up and half a step down; the step below a power of
two is only half as wide.  Its ends belong to it when `m` is even, because ties go to even.  For
each number of digits there are only two candidates, the neighbours of the double on the decimal
grid of that size: **a grid that has any point in the interval has one of them in it.**  Seventeen
digits always suffice.  All comparisons are of natural numbers.
-/

set_option autoImplicit false

namespace EntityQuery.Shortest

/-- A decimal `digits · 10^exponent`. -/
structure Digits where
  digits : Nat
  exponent : Int
deriving DecidableEq, Repr

/-- The exponent of the leading decimal digit of `num / den`, both positive. -/
def leadingExponent (num den : Nat) : Int :=
  if den ≤ num then ((Nat.repr (num / den)).length : Int) - 1
  else -((Nat.repr ((den - 1) / num)).length : Int)

/-- Whether `c · 10^k` is below, at or above `num / den`. -/
def compareGrid (c : Nat) (k : Int) (num den : Nat) : Ordering :=
  compare (c * Nat.pow 10 k.toNat * den) (num * Nat.pow 10 (-k).toNat)

/-- The reals that round to a double, as fractions over one denominator. -/
structure Interval where
  low : Nat
  value : Nat
  high : Nat
  den : Nat
  closed : Bool

/-- The interval of a finite double that is not zero. -/
def interval (x : Binary64) : Interval :=
  let m := x.significand
  let up := Nat.pow 2 (x.power - 2).toNat
  let below := if m = Nat.pow 2 52 ∧ 1 < x.exponentField then 1 else 2
  { low := (4 * m - below) * up
    value := 4 * m * up
    high := (4 * m + 2) * up
    den := Nat.pow 2 (2 - x.power).toNat
    closed := m % 2 == 0 }

/-- Whether a point of a decimal grid lies in an interval. -/
def Interval.admits (i : Interval) (c : Nat) (k : Int) : Bool :=
  match compareGrid c k i.low i.den, compareGrid c k i.high i.den with
  | .gt, .lt => true
  | .eq, .lt => i.closed
  | .gt, .eq => i.closed
  | _, _ => false

/-- Which of two decimals is chosen when a double lies exactly in the middle between them. -/
inductive Tie
  | upper
  | even
deriving DecidableEq, Repr

/-- The better of the two neighbours on the grid of step `10^k`, if either lies in the interval.
The nearer one is better. -/
def Interval.onGrid (i : Interval) (tie : Tie) (k : Int) : Option Nat :=
  let num := i.value * Nat.pow 10 (-k).toNat
  let den := i.den * Nat.pow 10 k.toNat
  let c := num / den
  match i.admits c k, i.admits (c + 1) k with
  | true, true =>
    match compare (2 * (num % den)) den with
    | .lt => some c
    | .gt => some (c + 1)
    | .eq => if tie = .even ∧ c % 2 = 0 then some c else some (c + 1)
  | true, false => some c
  | false, true => some (c + 1)
  | false, false => none

/-- Tries grids of `n`, `n + 1`, … digits, as many as `tries` says. -/
def Interval.search (i : Interval) (tie : Tie) (leading : Int) : Nat → Nat → Digits
  | 0, n => ⟨i.value * Nat.pow 10 ((n : Int) - leading).toNat / i.den, leading - n⟩
  | tries + 1, n =>
    let k := leading - (n : Int) + 1
    match i.onGrid tie k with
    | some c => ⟨c, k⟩
    | none => i.search tie leading tries (n + 1)

/-- Takes the zeros off the end of a number, raising the exponent for each. -/
def Digits.trim (d : Digits) : Nat → Digits
  | 0 => d
  | tries + 1 =>
    if d.digits ≠ 0 ∧ d.digits % 10 = 0 then Digits.trim ⟨d.digits / 10, d.exponent + 1⟩ tries
    else d

/-- The shortest decimal that reads back as a finite double, without its sign. -/
def digits (tie : Tie) (x : Binary64) : Digits :=
  if x.isZero then ⟨0, 0⟩
  else
    let i := interval x
    (i.search tie (leadingExponent i.value i.den) 17 1).trim 20

end EntityQuery.Shortest
