/-!
# Reading bytes as UTF-8

Response bodies are bytes.  `Utf8.decode` reads them as a list in which a character stands for
each well-formed sequence and a gap (`none`) for each *maximal subpart* of an ill-formed one: the
longest run of bytes that could still have become a character.  Both readings that the rest of
the library needs are views of that list: `Utf8.lossy` writes U+FFFD into the gaps, and
`Utf8.strict?` refuses a list that has any.

The reader is a machine with one state per unfinished sequence, so it recurses on the bytes
themselves.  Which second bytes a lead byte admits decides everything: the narrowed ranges after
`E0`, `ED`, `F0` and `F4` are what excludes overlong forms, surrogates and numbers past
U+10FFFF.
-/

set_option autoImplicit false

namespace EntityQuery.Text.Utf8

/-- An unfinished sequence: how many bytes it still needs, the number read so far, and the range
that its next byte has to lie in. -/
structure Unfinished where
  needed : Nat
  value : Nat
  low : UInt8
  high : UInt8

/-- What a byte means where a new sequence begins. -/
inductive Lead
  /-- A character of one byte. -/
  | whole (c : Char)
  /-- The first byte of a longer sequence. -/
  | start (s : Unfinished)
  /-- A byte that begins nothing. -/
  | stray

/-- Reads a byte as the first one of a sequence. -/
def lead (b : UInt8) : Lead :=
  let n := b.toNat
  if n < 0x80 then .whole (Char.ofNat n)
  else if 0xC2 ≤ n && n ≤ 0xDF then .start ⟨1, n - 0xC0, 0x80, 0xBF⟩
  else if n == 0xE0 then .start ⟨2, 0, 0xA0, 0xBF⟩
  else if n == 0xED then .start ⟨2, 13, 0x80, 0x9F⟩
  else if 0xE1 ≤ n && n ≤ 0xEF then .start ⟨2, n - 0xE0, 0x80, 0xBF⟩
  else if n == 0xF0 then .start ⟨3, 0, 0x90, 0xBF⟩
  else if 0xF1 ≤ n && n ≤ 0xF3 then .start ⟨3, n - 0xF0, 0x80, 0xBF⟩
  else if n == 0xF4 then .start ⟨3, 4, 0x80, 0x8F⟩
  else .stray

/-- Characters and gaps of a byte sequence, read from a state in which `open?` is unfinished. -/
def decodeFrom : Option Unfinished → List UInt8 → List (Option Char)
  | none, [] => []
  | some _, [] => [none]
  | none, b :: r =>
    match lead b with
    | .whole c => some c :: decodeFrom none r
    | .start s => decodeFrom (some s) r
    | .stray => none :: decodeFrom none r
  | some s, b :: r =>
    if s.low ≤ b && b ≤ s.high then
      let value := s.value * 64 + (b.toNat - 0x80)
      if s.needed ≤ 1 then some (Char.ofNat value) :: decodeFrom none r
      else decodeFrom (some ⟨s.needed - 1, value, 0x80, 0xBF⟩) r
    else
      none :: match lead b with
        | .whole c => some c :: decodeFrom none r
        | .start s => decodeFrom (some s) r
        | .stray => none :: decodeFrom none r

/-- Characters of a byte sequence, with a gap for each maximal ill-formed subpart. -/
def decode (bs : List UInt8) : List (Option Char) := decodeFrom none bs

/-- The text of a byte sequence, with U+FFFD in its gaps. -/
def lossy (bs : List UInt8) : String :=
  String.ofList ((decode bs).map (·.getD '\uFFFD'))

/-- The text of a byte sequence that has no gaps. -/
def strict? (bs : List UInt8) : Option String :=
  ((decode bs).mapM id).map String.ofList

/-- How many bytes come before the first gap. -/
def validLength (bs : List UInt8) : Nat :=
  (String.ofList (((decode bs).takeWhile Option.isSome).filterMap id)).utf8ByteSize

/-- The bytes of a text. -/
def encode (s : String) : List UInt8 := s.toList.flatMap String.utf8EncodeChar

end EntityQuery.Text.Utf8
