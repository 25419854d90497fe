/-!
# Quoted strings

A string literal stands between single quotes, and a quote inside it is written twice.  That is
all: no other character is escaped, so commas, parentheses and keywords inside a literal are
plain text, and only the doubling rule tells where the literal ends.
-/

set_option autoImplicit false

namespace EntityQuery.Text.Quoted

/-- The inside of a literal: every quote twice, everything else once. -/
def double : List Char → List Char
  | [] => []
  | c :: r => if c = '\'' then '\'' :: '\'' :: double r else c :: double r

/-- A string as a literal. -/
def quote (s : String) : String :=
  String.ofList ('\'' :: double s.toList ++ ['\''])

/-- A quote is written twice and all else once. -/
theorem count_double (x : Char) (s : List Char) :
    (double s).count x = (if x = '\'' then 2 else 1) * s.count x := by
  induction s with
  | nil => simp [double]
  | cons c r ih => by_cases h : c = '\'' <;> by_cases hx : x = c <;> grind [double]

theorem double_append (s t : List Char) : double (s ++ t) = double s ++ double t := by
  induction s with
  | nil => rfl
  | cons c r ih => by_cases h : c = '\'' <;> simp [double, h, ih]

end EntityQuery.Text.Quoted
