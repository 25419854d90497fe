import EntityQuery.Filter.Fragment
import EntityQuery.Expression
import EntityQuery.Literal.Render

/-!
# Writing predicates

`Expression.fragment` writes a predicate, from the leaves up.  What a node makes of its operands is
said once, in `Fragment.compose`, which is given the operands together with the pieces they were
written as; the recursion around it only collects those pieces.

Of several faults the first in reading order counts.  Whether a node's operator belongs in a predicate,
and whether it has the right number of operands, is checked before what they are.
-/

set_option autoImplicit false

namespace EntityQuery

/-- A piece, or the reason why there is none. -/
abbrev Written := Except QueryError Fragment

/-- A literal as a piece. -/
def Literal.fragment (l : Literal) : Written :=
  match l.render with
  | .ok s => .ok (.atom s)
  | .error reason => .error (.unsupportedValue reason)

/-- A value as a piece. -/
def Value.fragment (v : Value) : Written :=
  match v.render with
  | .ok s => .ok (.atom s)
  | .error reason => .error (.unsupportedValue reason)

/-- A path as it is written, if it names something. -/
def Field.written (f : Field) : Except QueryError String := f.validate.map fun _ => f.text

namespace Fragment

/-- The sign between the two sides of a comparison. -/
def comparison? : Operator → Option String
  | .equals => some "eq"
  | .notEquals => some "ne"
  | .greaterThan => some "gt"
  | .greaterThanOrEqualTo => some "ge"
  | .lessThan => some "lt"
  | .lessThanOrEqualTo => some "le"
  | _ => none

/-- The function that two operands are given to. -/
def function? : Operator → Option String
  | .contains => some "contains"
  | .startsWith => some "startswith"
  | .endsWith => some "endswith"
  | _ => none

/-- How a condition on two operands is written; `none` for any other operator. -/
def binary? (operator : Operator) : Option (String → String → String) :=
  match comparison? operator, function? operator with
  | some sign, _ => some fun left right => left ++ " " ++ sign ++ " " ++ right
  | none, some name => some fun left right => name ++ "(" ++ left ++ "," ++ right ++ ")"
  | none, none =>
    if operator = .oneOf then some fun left right => left ++ " in (" ++ right ++ ")" else none

/-- A condition on two operands, the left one looked at first.  An operator that makes no condition
is refused before either of them is looked at. -/
def composeBinary (operator : Operator) (pieces : List Written) : Written :=
  match binary? operator, pieces with
  | some write, [left, right] => do
    let l ← left
    let r ← right
    .ok (atom (write l.reduce r.reduce))
  | _, _ => .error (.unsupportedOperator operator)

/-- Two conditions joined. -/
def composeJoint (operator : Operator) (joint : Joint) : List Written → Written
  | [left, right] => do
    let l ← left
    let r ← right
    .ok (join joint l r)
  | _ => .error (.unsupportedOperator operator)

/-- A condition on the elements of a collection.  The range variable stands for the element. -/
def composeQuantifier (operator : Operator) (word : String) :
    List Operand → List Written → Written
  | [_, .variable name, _], [field, _, body] => do
    let f ← field
    let b ← body
    .ok (atom (f.reduce ++ "/" ++ word ++ "(" ++ name ++ ": " ++ b.joined ++ ")"))
  | [_, _, _], _ =>
    .error (.invalidExpression
      ("'" ++ operator.name ++ "' expects a lambda variable as its second operand"))
  | _, _ => .error (.unsupportedOperator operator)

/-- What a node makes of its operands, given with the pieces they were written as. -/
def compose (operator : Operator) (operands : List Operand) (pieces : List Written) : Written :=
  match operator with
  | .literal | .fieldReference =>
    match pieces with
    | [piece] => piece
    | _ => .error (.unsupportedOperator operator)
  | .not =>
    match pieces with
    | [piece] => piece.map negate
    | _ => .error (.unsupportedOperator operator)
  | .and => composeJoint operator .and pieces
  | .or => composeJoint operator .or pieces
  | .any => composeQuantifier operator "any" operands pieces
  | .all => composeQuantifier operator "all" operands pieces
  | _ => composeBinary operator pieces

/-- The items of a list with commas between them, as one word. -/
def listing (pieces : List Written) : Written :=
  (pieces.mapM id).map fun fs => atom (",".intercalate (fs.map reduce))

end Fragment

mutual

/-- Writes a predicate. -/
def Expression.fragment : Expression → Written
  | .node operator operands _ => Fragment.compose operator operands (Operand.fragments operands)

/-- Writes an operand. -/
def Operand.fragment : Operand → Written
  | .literal l => l.fragment
  | .field f => f.written.map Fragment.atom
  | .expression e =>
    if e.isLinked then
      .error (.invalidPredicateComposition
        ("'" ++ e.operator.name ++ "' links to a query chain and cannot be used as an operand"))
    else e.fragment
  | .bare v => v.fragment
  | .list items => Fragment.listing (Operand.fragments items)
  | .variable name => .ok (.atom name)
  | .projection _ => .error (.unsupportedValue "a projector cannot be rendered as a literal")

/-- Writes each of several operands. -/
def Operand.fragments : List Operand → List Written
  | [] => []
  | x :: rest => x.fragment :: Operand.fragments rest

end

end EntityQuery
