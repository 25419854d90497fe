/-!
# Decimal numbers

A `Decimal` is an integer of any size together with a scale: it stands for
`digits · 10^(-scale)`.  Nothing is normalised, so `1.50` and `1.5` are different decimals of the
same size, and the text shows which one it was.

The text is positional as long as that stays readable, and only the two ends differ:

* a **positive** scale puts the point among the digits, filling up with zeros in front.  When more
  than five zeros would stand between the point and the first digit, the number is written with an
  exponent instead (`1.5E-7`);
* a **negative** scale appends zeros, fifteen at most; beyond that the digits are followed by the
  exponent (`12e+16`).

Zero is `0` at every scale.
-/

set_option autoImplicit false

namespace EntityQuery

/-- The number `digits · 10^(-scale)`. -/
structure Decimal where
  digits : Int
  scale : Int
deriving DecidableEq, Repr

namespace Decimal

/-- An integer, at scale zero. -/
def ofInt (n : Int) : Decimal := ⟨n, 0⟩

/-- Trailing zeros written out before an exponent takes over. -/
def maxTrailingZeros : Nat := 15

/-- Zeros written between the point and the first digit before an exponent takes over. -/
def maxLeadingZeros : Nat := 5

/-- The text of a magnitude, given by its digits, at a positive scale. -/
def fractionText (ds : List Char) (scale : Nat) : List Char :=
  if scale < ds.length then
    ds.take (ds.length - scale) ++ '.' :: ds.drop (ds.length - scale)
  else if scale - ds.length ≤ maxLeadingZeros then
    '0' :: '.' :: (List.replicate (scale - ds.length) '0' ++ ds)
  else
    let exponent := (Nat.repr (scale - ds.length + 1)).toList
    match ds with
    | [] => []
    | [d] => d :: 'E' :: '-' :: exponent
    | d :: rest => d :: '.' :: (rest ++ 'E' :: '-' :: exponent)

/-- The text of a magnitude, given by its digits, at a scale that is not positive: `zeros` is how
many powers of ten it is multiplied by. -/
def wholeText (ds : List Char) (zeros : Nat) : List Char :=
  if zeros ≤ maxTrailingZeros then ds ++ List.replicate zeros '0'
  else ds ++ 'e' :: '+' :: (Nat.repr zeros).toList

/-- The text of a decimal. -/
def text (x : Decimal) : String :=
  let ds := (Nat.repr x.digits.natAbs).toList
  let magnitude :=
    if x.digits = 0 then ['0']
    else if 0 < x.scale then fractionText ds x.scale.toNat
    else wholeText ds x.scale.natAbs
  String.ofList (if x.digits < 0 then '-' :: magnitude else magnitude)

/-- The first natural number too large for a count. -/
def countLimit : Nat := Nat.pow 2 64

/-- A decimal read as a count of entries: what stands behind the point is cut off, and a negative
number is no count even when cutting would leave zero.  Neither is one of `2^64` or more. -/
def count? (x : Decimal) : Option Nat :=
  if x.digits < 0 then none
  else
    let n := x.digits.toNat
    let size := (Nat.repr n).length
    if n = 0 then some 0
    else if 0 ≤ x.scale then
      if size ≤ x.scale.toNat then some 0
      else
        let whole := n / Nat.pow 10 x.scale.toNat
        if whole < countLimit then some whole else none
    else if 20 ≤ x.scale.natAbs then none
    else
      let whole := n * Nat.pow 10 x.scale.natAbs
      if whole < countLimit then some whole else none

/-- The limbs of a magnitude in base `2^64`, least significant first; zero has none. -/
def limbs (n : Nat) : List Nat :=
  if n = 0 then [] else n % countLimit :: limbs (n / countLimit)
termination_by n
decreasing_by exact Nat.div_lt_self (by omega) (by decide)

end Decimal

end EntityQuery
