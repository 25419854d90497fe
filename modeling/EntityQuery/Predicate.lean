import EntityQuery.Expression
import EntityQuery.Filter.Fragment

/-!
# Predicates

A `Predicate` is an expression that may stand in a filter: not a step of a chain, and not linked to
one.  The type carries both facts, so combining predicates cannot go wrong.

An expression from outside is checked once, by `Predicate.ofExpression`.  Lists of predicates are
folded from the left, and there has to be at least one.
-/

set_option autoImplicit false

namespace EntityQuery

/-- A condition on two operands. -/
inductive Comparison
  | equals
  | notEquals
  | greaterThan
  | greaterThanOrEqualTo
  | lessThan
  | lessThanOrEqualTo
  | contains
  | startsWith
  | endsWith
deriving DecidableEq, Repr

def Comparison.operator : Comparison → Operator
  | .equals => .equals
  | .notEquals => .notEquals
  | .greaterThan => .greaterThan
  | .greaterThanOrEqualTo => .greaterThanOrEqualTo
  | .lessThan => .lessThan
  | .lessThanOrEqualTo => .lessThanOrEqualTo
  | .contains => .contains
  | .startsWith => .startsWith
  | .endsWith => .endsWith

theorem Comparison.isQuery_operator (c : Comparison) : c.operator.isQuery = false := by
  cases c <;> rfl

/-- A condition on the elements of a collection. -/
inductive Quantifier
  | any
  | all
deriving DecidableEq, Repr

def Quantifier.operator : Quantifier → Operator
  | .any => .any
  | .all => .all

theorem Quantifier.isQuery_operator (q : Quantifier) : q.operator.isQuery = false := by
  cases q <;> rfl

def Joint.operator : Joint → Operator
  | .and => .and
  | .or => .or

theorem Joint.isQuery_operator (j : Joint) : j.operator.isQuery = false := by
  cases j <;> rfl

/-- An expression that may stand in a filter. -/
structure Predicate where
  expression : Expression
  isLinked_expression : expression.isLinked = false
  isQuery_operator : expression.operator.isQuery = false

namespace Predicate

/-- A predicate of one node. -/
def alone (operator : Operator) (operands : List Operand) (h : operator.isQuery = false) :
    Predicate :=
  ⟨.alone operator operands, rfl, h⟩

/-- An expression from outside, if it is a predicate. -/
def ofExpression (e : Expression) : Except QueryError Predicate :=
  if h : e.isLinked = true then .error .linkedPredicate
  else if k : e.operator.isQuery = true then
    .error (.invalidPredicateComposition
      ("'" ++ e.operator.name ++ "' is a query operator, not a predicate"))
  else .ok ⟨e, by simpa using h, by simpa using k⟩

/-- Compares a property with an operand. -/
def compare (c : Comparison) (f : Field) (right : Operand) : Predicate :=
  alone c.operator [.field f, right] c.isQuery_operator

/-- Whether a property has one of several values. -/
def oneOf (f : Field) (values : List Value) : Predicate :=
  alone .oneOf [.field f, .list (values.map fun v => .literal (.ofValue v))] rfl

/-- Two predicates joined. -/
def join (j : Joint) (p q : Predicate) : Predicate :=
  alone j.operator [.expression p.expression, .expression q.expression] j.isQuery_operator

/-- The negation of a predicate. -/
def negate (p : Predicate) : Predicate := alone .not [.expression p.expression] rfl

/-- Whether a predicate holds of elements of a collection, which a variable stands for. -/
def quantify (q : Quantifier) (collection : Field) (name : String) (body : Predicate) :
    Predicate :=
  alone q.operator [.field collection, .variable name, .expression body.expression]
    q.isQuery_operator

/-- Predicates joined from the left. -/
def fold (j : Joint) : List Predicate → Except QueryError Predicate
  | [] => .error (.invalidPredicateComposition "At least one predicate must be provided")
  | p :: rest => .ok (rest.foldl (join j) p)

/-- All of several predicates. -/
def allOf (ps : List Predicate) : Except QueryError Predicate := fold .and ps

/-- Any of several predicates. -/
def anyOf (ps : List Predicate) : Except QueryError Predicate := fold .or ps

end Predicate

end EntityQuery
