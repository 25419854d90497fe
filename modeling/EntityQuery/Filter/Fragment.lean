/-!
# Fragments of a filter

A predicate is written piece by piece, and a `Fragment` is a piece: its words, and what joins them.
`a eq 1 and b eq 2` is three words joined by `and`; a comparison, a call or a group is one word, with
nothing to join.

Parentheses are set where a piece goes into another one (`Fragment.reduce`), never around the whole,
and only around pieces of more than one word.  A piece that is joined by a word goes into a larger
one joined by the same word without them: `a and b and c` needs none (`Fragment.join`).
-/

set_option autoImplicit false

namespace EntityQuery

/-- A word that joins conditions. -/
inductive Joint
  | and
  | or
deriving DecidableEq, Repr

def Joint.keyword : Joint → String
  | .and => "and"
  | .or => "or"

/-- A piece of a filter. -/
structure Fragment where
  words : List String
  joint : Option Joint
deriving DecidableEq

namespace Fragment

/-- A piece of one word. -/
def atom (word : String) : Fragment := ⟨[word], none⟩

/-- The text of a piece that stands alone. -/
def joined (f : Fragment) : String := " ".intercalate f.words

/-- The text of a piece inside another: grouped, if it is of several words. -/
def reduce (f : Fragment) : String :=
  match f.words with
  | [word] => word
  | words => "(" ++ " ".intercalate words ++ ")"

/-- The words of a piece on one side of a joint. -/
def side (joint : Joint) (f : Fragment) : List String :=
  if f.joint = some joint then f.words else [f.reduce]

/-- Two pieces joined. -/
def join (joint : Joint) (left right : Fragment) : Fragment :=
  ⟨left.side joint ++ joint.keyword :: right.side joint, some joint⟩

/-- A piece negated.  One word needs no parentheses. -/
def negate (f : Fragment) : Fragment :=
  match f.words with
  | [word] => atom ("not " ++ word)
  | _ => atom ("not(" ++ f.joined ++ ")")

end Fragment

end EntityQuery
