/-!
# Hexadecimal digits

Bytes are written as two hexadecimal digits in three places: percent escapes (upper case),
identifiers and raw bodies (lower case).  The two alphabets differ from the tenth digit on; the
reader takes both.
-/

set_option autoImplicit false

namespace EntityQuery.Text

/-- The hexadecimal digit of a number below sixteen, in lower case. -/
def hexLower (n : Nat) : Char :=
  if n < 10 then Char.ofNat ('0'.toNat + n) else Char.ofNat ('a'.toNat + (n - 10))

/-- The hexadecimal digit of a number below sixteen, in upper case. -/
def hexUpper (n : Nat) : Char :=
  if n < 10 then Char.ofNat ('0'.toNat + n) else Char.ofNat ('A'.toNat + (n - 10))

/-- The value of a hexadecimal digit of either case. -/
def hexValue? (c : Char) : Option Nat :=
  if '0' ≤ c && c ≤ '9' then some (c.toNat - '0'.toNat)
  else if 'a' ≤ c && c ≤ 'f' then some (c.toNat - 'a'.toNat + 10)
  else if 'A' ≤ c && c ≤ 'F' then some (c.toNat - 'A'.toNat + 10)
  else none

/-- The last `width` hexadecimal digits of a number, most significant first. -/
def hexDigits : Nat → Nat → List Char
  | 0, _ => []
  | width + 1, n => hexDigits width (n / 16) ++ [hexLower (n % 16)]

theorem length_hexDigits (width n : Nat) : (hexDigits width n).length = width := by
  induction width generalizing n with
  | zero => rfl
  | succ w ih => simp [hexDigits, ih]

/-- The number that hexadecimal digits stand for; `none` when one of them is no digit. -/
def hexNumber? (cs : List Char) : Option Nat :=
  cs.foldlM (fun n c => (hexValue? c).map (n * 16 + ·)) 0

/-- Bytes as a run of hexadecimal digits, two for each. -/
def hexOfBytes (bs : List UInt8) : String :=
  String.ofList (bs.flatMap fun b => hexDigits 2 b.toNat)

/-- The bytes that a run of hexadecimal digits stands for, two digits a byte. -/
def bytesOfHex? : List Char → Option (List UInt8)
  | [] => some []
  | a :: b :: r => do
    let n ← hexNumber? [a, b]
    return n.toUInt8 :: (← bytesOfHex? r)
  | [_] => none

end EntityQuery.Text
