import EntityQuery.Number.Shortest

/-!
# Texts of doubles

The digits of a double are the fewest that read back (`EntityQuery.Number.Shortest`); a layout
decides how they are set: between which powers of ten the text is positional, whether a whole
number keeps `.0`, and how an exponent looks.  Three layouts are in use.

* `FloatLayout.literal` for filter literals and keys: always positional, no `.0`.
* `FloatLayout.inspected` for a value shown inside an error message: positional from `10^-4` up to
  `10^16`, otherwise `1.5e16`, `1e-5`.
* `FloatLayout.json` for JSON: positional from `10^-5` up to `10^16`, otherwise `1.5e+16`, `1e-6`.
-/

set_option autoImplicit false

namespace EntityQuery

/-- How the digits of a double are set. -/
structure FloatLayout where
  /-- Whether a number whose leading digit has this exponent is written positionally. -/
  positional : Int → Bool
  /-- Whether a whole number in positional form ends in `.0`. -/
  keepsPoint : Bool
  /-- How an exponent is written. -/
  exponent : Int → String
  /-- Which digits are taken of two that are equally short and equally near. -/
  tie : Shortest.Tie

namespace FloatLayout

def literal : FloatLayout := ⟨fun _ => true, false, fun _ => "", .upper⟩

def inspected : FloatLayout :=
  ⟨fun p => -4 ≤ p && p < 16, true, fun p => "e" ++ toString p, .upper⟩

/-- An exponent with its sign, written out also when it is positive. -/
def signedExponent (p : Int) : String := (if p < 0 then "e-" else "e+") ++ Nat.repr p.natAbs

def json : FloatLayout := ⟨fun p => -5 ≤ p && p < 16, true, signedExponent, .even⟩

/-- Digits with the leading one at `10^leading`, in positional form. -/
def positionalText (keepsPoint : Bool) (ds : List Char) (leading : Int) : List Char :=
  if leading < 0 then '0' :: '.' :: (List.replicate (-leading - 1).toNat '0' ++ ds)
  else
    let whole := leading.toNat + 1
    if ds.length ≤ whole then
      ds ++ List.replicate (whole - ds.length) '0' ++ (if keepsPoint then ['.', '0'] else [])
    else ds.take whole ++ '.' :: ds.drop whole

/-- The text of a double: `NaN`, `inf`, or its digits as the layout sets them. -/
def text (layout : FloatLayout) (x : Binary64) : String :=
  if x.isNaN then "NaN"
  else
    let sign := if x.isNegative then "-" else ""
    if x.isFinite then
      let d := Shortest.digits layout.tie x
      let ds := (Nat.repr d.digits).toList
      let leading := if x.isZero then 0 else d.exponent + (ds.length : Int) - 1
      if layout.positional leading then
        sign ++ String.ofList (positionalText layout.keepsPoint ds leading)
      else
        let mantissa := match ds with
          | [] => []
          | [c] => [c]
          | c :: rest => c :: '.' :: rest
        sign ++ String.ofList mantissa ++ layout.exponent leading
    else sign ++ "inf"

end FloatLayout

end EntityQuery
