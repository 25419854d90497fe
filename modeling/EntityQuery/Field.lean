import EntityQuery.Text.Blank
import EntityQuery.Text.Visible

/-!
# Field paths

A `Field` names a property of an entity, possibly of one further inside, by the segments that lead
to it.  Written out, the segments stand with slashes between them.

A path is **valid** when it has a segment and none of its segments is blank.  Nothing keeps an
invalid path from being built; it is found out when it is put into a query (`Field.validate`), and
once more when the query is written.
-/

set_option autoImplicit false

namespace EntityQuery

/-- A path to a property. -/
structure Field where
  path : List String
deriving DecidableEq, Repr

namespace Field

/-- A path as it is written. -/
def text (f : Field) : String := "/".intercalate f.path

/-- Cuts a text at its slashes. -/
def splitSlashes : List Char → List (List Char)
  | [] => [[]]
  | c :: r =>
    if c = '/' then [] :: splitSlashes r
    else match splitSlashes r with
      | [] => [[c]]
      | s :: rest => (c :: s) :: rest

/-- The path that a text stands for, cut at its slashes. -/
def ofText (s : String) : Field := ⟨(splitSlashes s.toList).map String.ofList⟩

/-- The path to a property of the property at this path. -/
def child (f : Field) (segment : String) : Field := ⟨f.path ++ [segment]⟩

def isValid (f : Field) : Bool := !f.path.isEmpty && !f.path.any Text.isBlank

/-- A path inside an error message, segment by segment. -/
def inspect (f : Field) : String :=
  "FieldReference \x7b path: [" ++ ", ".intercalate (f.path.map Text.shown) ++ "] \x7d"

end Field

end EntityQuery
