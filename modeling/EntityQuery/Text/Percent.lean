import EntityQuery.Text.Hex
import EntityQuery.Text.Utf8

/-!
# Percent encoding

A URL is ASCII, so any other character goes into it as the escapes of its UTF-8 bytes, and so
does every ASCII character that the place it goes to gives a meaning of its own.  `encode` takes
the set of characters that stay as they are; nothing outside ASCII ever stays.

`decode` undoes it on bytes: a percent sign with two hexadecimal digits after it stands for the
byte they name, and any other percent sign stands for itself.
-/

set_option autoImplicit false

namespace EntityQuery.Text.Percent

/-- The escape of one byte. -/
def escape (b : UInt8) : List Char :=
  ['%', hexUpper (b.toNat / 16), hexUpper (b.toNat % 16)]

/-- How one character is written when the characters of `keeps` stay as they are. -/
def encodeChar (keeps : Char → Bool) (c : Char) : List Char :=
  if c.toNat < 128 && keeps c then [c] else (String.utf8EncodeChar c).flatMap escape

/-- Writes a text with every character outside `keeps` escaped. -/
def encodeChars (keeps : Char → Bool) (cs : List Char) : List Char := cs.flatMap (encodeChar keeps)

@[inherit_doc encodeChars]
def encode (keeps : Char → Bool) (s : String) : String :=
  String.ofList (encodeChars keeps s.toList)

/-- The bytes that a text with escapes stands for. -/
def decode : List Char → List UInt8
  | [] => []
  | '%' :: a :: b :: r =>
    match hexValue? a, hexValue? b with
    | some x, some y => (x * 16 + y).toUInt8 :: decode r
    | _, _ => '%'.toNat.toUInt8 :: decode (a :: b :: r)
  | c :: r => String.utf8EncodeChar c ++ decode r

theorem encodeChars_append (keeps : Char → Bool) (s t : List Char) :
    encodeChars keeps (s ++ t) = encodeChars keeps s ++ encodeChars keeps t := by
  simp [encodeChars]

end EntityQuery.Text.Percent
