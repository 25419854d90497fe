/-!
# Blank text

A path segment names a property, and a segment made of white space alone names nothing.  White
space here is the whole `White_Space` property of Unicode, twenty-five characters: the five
ASCII controls from tab to carriage return, the space, and the wider spaces and line separators
that people paste from documents.

`isBlank` is the test that field paths use; `trimStart` is what date readers use in front of a
number.
-/

set_option autoImplicit false

namespace EntityQuery.Text

/-- The `White_Space` property of Unicode. -/
def isSpace (c : Char) : Bool :=
  let n := c.toNat
  (9 ≤ n && n ≤ 13) || n == 0x20 || n == 0x85 || n == 0xA0 || n == 0x1680
    || (0x2000 ≤ n && n ≤ 0x200A) || n == 0x2028 || n == 0x2029 || n == 0x202F || n == 0x205F
    || n == 0x3000

/-- A text is blank when it holds nothing but white space; the empty text is blank. -/
def isBlank (s : String) : Bool := s.toList.all isSpace

/-- What is left of a text after the white space it begins with. -/
def trimStart (cs : List Char) : List Char := cs.dropWhile isSpace

theorem isBlank_empty : isBlank "" = true := rfl

/-- Every character that ASCII alone would call white space is one. -/
theorem isSpace_of_isWhitespace {c : Char} (h : c.isWhitespace = true) : isSpace c = true := by
  simp only [Char.isWhitespace, Bool.or_eq_true, decide_eq_true_eq] at h
  rcases h with (((rfl | rfl) | rfl) | rfl) <;> rfl

/-- Trimming leaves nothing to trim. -/
theorem trimStart_trimStart (cs : List Char) : trimStart (trimStart cs) = trimStart cs := by
  induction cs with
  | nil => rfl
  | cons c r ih =>
    by_cases h : isSpace c = true
    · simpa [trimStart, List.dropWhile_cons, h] using ih
    · simp [trimStart, h]

end EntityQuery.Text
