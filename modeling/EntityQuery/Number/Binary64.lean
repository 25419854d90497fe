/-!
# Binary floating point numbers

A `Binary64` is the bit pattern of a double: sign, eleven bits of exponent, fifty-two bits of
fraction.  Keeping the pattern rather than a machine number makes equality decidable, tells the
two zeros apart, and lets everything below be exact arithmetic on natural numbers.

* `significand` and `power` say which number a finite pattern stands for:
  `significand · 2^power`.
* `ofRatio` is the nearest pattern to a fraction, an exact tie going to the even one: the rule by
  which a decimal text becomes a double.
* `mul` and `div` are correctly rounded, as products and quotients of the exact numbers.
* `ofBinary32` widens a single; no rounding is involved.

Powers are spelled `Nat.pow` here and elsewhere: what `2 ^ n` stands for depends on what is
imported.
-/

set_option autoImplicit false

namespace EntityQuery

/-- A double, by its bit pattern. -/
structure Binary64 where
  bits : UInt64
deriving DecidableEq, Repr

namespace Binary64

/-- Whether the sign bit is set; also of a zero and of a pattern that is no number. -/
def isNegative (x : Binary64) : Bool := x.bits.toNat / Nat.pow 2 63 == 1

/-- The biased exponent. -/
def exponentField (x : Binary64) : Nat := x.bits.toNat / Nat.pow 2 52 % Nat.pow 2 11

/-- The stored part of the significand. -/
def fractionField (x : Binary64) : Nat := x.bits.toNat % Nat.pow 2 52

def isFinite (x : Binary64) : Bool := x.exponentField != 2047

def isNaN (x : Binary64) : Bool := x.exponentField == 2047 && x.fractionField != 0

def isZero (x : Binary64) : Bool := x.exponentField == 0 && x.fractionField == 0

/-- The integer significand of a finite pattern, with the leading bit that is not stored. -/
def significand (x : Binary64) : Nat :=
  if x.exponentField = 0 then x.fractionField else Nat.pow 2 52 + x.fractionField

/-- The power of two that the significand is multiplied by. -/
def power (x : Binary64) : Int :=
  if x.exponentField = 0 then -1074 else (x.exponentField : Int) - 1075

/-- The magnitude of a finite pattern as numerator and denominator. -/
def ratio (x : Binary64) : Nat × Nat :=
  (x.significand * Nat.pow 2 x.power.toNat, Nat.pow 2 (-x.power).toNat)

/-- A quotient rounded to the nearest integer, a tie to the even one. -/
def roundQuotient (num den : Nat) : Nat :=
  let q := num / den
  let r := num % den
  if 2 * r < den then q
  else if den < 2 * r then q + 1
  else if q % 2 = 0 then q else q + 1

/-- The pattern of positive infinity, as a number. -/
def infinityBits : Nat := 2047 * Nat.pow 2 52

/-- The pattern nearest to `num / den`, with the given sign; infinity where every finite pattern is
too small.  The pattern of a significand `m` at power `e` is `(e + 1074) · 2^52 + m`, also when `m`
is below `2^52` and also when rounding carried it up to `2^53`. -/
def ofRatio (negative : Bool) (num den : Nat) : Binary64 :=
  let sign := if negative then Nat.pow 2 63 else 0
  if num = 0 then ⟨UInt64.ofNat sign⟩
  else
    let estimate : Int := (Nat.log2 num : Int) - (Nat.log2 den : Int) - 53
    let scaled (e : Int) : Nat × Nat := (num * Nat.pow 2 (-e).toNat, den * Nat.pow 2 e.toNat)
    let near := max estimate (-1074)
    let e := if (scaled near).1 / (scaled near).2 < Nat.pow 2 53 then near else near + 1
    let m := roundQuotient (scaled e).1 (scaled e).2
    let magnitude := (e + 1074).toNat * Nat.pow 2 52 + m
    ⟨UInt64.ofNat (sign + min magnitude infinityBits)⟩

/-- The nearest pattern to a natural number. -/
def ofNat (n : Nat) : Binary64 := ofRatio false n 1

def neg (x : Binary64) : Binary64 := ⟨x.bits ^^^ (0x8000000000000000 : UInt64)⟩

/-- The correctly rounded product of two finite patterns. -/
def mul (x y : Binary64) : Binary64 :=
  ofRatio (x.isNegative != y.isNegative) (x.ratio.1 * y.ratio.1) (x.ratio.2 * y.ratio.2)

/-- The correctly rounded quotient of two finite patterns, the second of them not zero. -/
def div (x y : Binary64) : Binary64 :=
  ofRatio (x.isNegative != y.isNegative) (x.ratio.1 * y.ratio.2) (x.ratio.2 * y.ratio.1)

/-- A single as the double of the same value; a pattern that is no number keeps its payload and
becomes quiet. -/
def ofBinary32 (bits : UInt32) : Binary64 :=
  let n := bits.toNat
  let negative := n / Nat.pow 2 31 == 1
  let exponent := n / Nat.pow 2 23 % Nat.pow 2 8
  let fraction := n % Nat.pow 2 23
  let sign := if negative then Nat.pow 2 63 else 0
  if exponent = 255 then
    let quiet := if fraction = 0 then 0 else Nat.pow 2 51 ||| fraction * Nat.pow 2 29
    ⟨UInt64.ofNat (sign + infinityBits + quiet)⟩
  else if exponent = 0 then ofRatio negative fraction (Nat.pow 2 149)
  else ofRatio negative ((Nat.pow 2 23 + fraction) * Nat.pow 2 exponent) (Nat.pow 2 150)

end Binary64

end EntityQuery
