/-!
# Operators

Every node of a query carries an `Operator`.  There are two kinds, and they never mix.  The **query
operators** are the steps of a chain, from `select` to `value`; the others make up the predicates
that a `predicate` step holds.  `Operator.isQuery` tells the two apart.

`name` is the name an operator goes by in messages, `tag` the one it has when a whole node is shown.
-/

set_option autoImplicit false

namespace EntityQuery

/-- What a node does. -/
inductive Operator
  | select
  | top
  | skip
  | orderBy
  | orderByDescending
  | predicate
  | expand
  | expandAll
  | getByKey
  | getWithCount
  | value
  | and
  | or
  | not
  | equals
  | notEquals
  | greaterThan
  | greaterThanOrEqualTo
  | lessThan
  | lessThanOrEqualTo
  | contains
  | startsWith
  | endsWith
  | oneOf
  | any
  | all
  | literal
  | fieldReference
deriving DecidableEq, Repr

namespace Operator

/-- Whether an operator is a step of a query chain. -/
def isQuery : Operator → Bool
  | select | top | skip | orderBy | orderByDescending | predicate | expand | expandAll | getByKey
  | getWithCount | value => true
  | _ => false

/-- The name of an operator in messages. -/
def name : Operator → String
  | select => "select"
  | top => "top"
  | skip => "skip"
  | orderBy => "orderBy"
  | orderByDescending => "orderByDescending"
  | predicate => "predicate"
  | expand => "expand"
  | expandAll => "expandAll"
  | getByKey => "getByKey"
  | getWithCount => "getWithCount"
  | value => "value"
  | and => "and"
  | or => "or"
  | not => "not"
  | equals => "equals"
  | notEquals => "notEquals"
  | greaterThan => "greaterThan"
  | greaterThanOrEqualTo => "greaterThanOrEqualTo"
  | lessThan => "lessThan"
  | lessThanOrEqualTo => "lessThanOrEqualTo"
  | contains => "contains"
  | startsWith => "startsWith"
  | endsWith => "endsWith"
  | oneOf => "in"
  | any => "any"
  | all => "all"
  | literal => "literal"
  | fieldReference => "fieldReference"

/-- The name of an operator inside a node that is shown: the same, with a capital. -/
def tag (o : Operator) : String :=
  match o.name.toList with
  | [] => ""
  | c :: r => String.ofList (c.toUpper :: r)

/-- Every operator once. -/
def every : List Operator :=
  [select, top, skip, orderBy, orderByDescending, predicate, expand, expandAll, getByKey,
    getWithCount, value, and, or, not, equals, notEquals, greaterThan, greaterThanOrEqualTo,
    lessThan, lessThanOrEqualTo, contains, startsWith, endsWith, oneOf, any, all, literal,
    fieldReference]

/-- The operator of a name. -/
def ofName? (s : String) : Option Operator := every.find? (·.name == s)

end Operator

end EntityQuery
