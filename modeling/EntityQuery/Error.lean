import EntityQuery.Operator
import EntityQuery.Field
import EntityQuery.Json.Fault
import EntityQuery.Url.Basic

/-!
# What can go wrong with a query

`QueryError` lists the causes in the order in which a query meets them.

* **Building** it: predicates that cannot be put together, a call without fields, a blank path.
* **Writing** it as a URL: an operator in a place or with operands it is not made for, an expression
  that is no predicate, a value that cannot be written.
* **Sending** it: a status that is not success, a transport that fails or is missing, a body that is
  not the JSON it should be, a link that leads nowhere.

`QueryError.message` is the wording of each.
-/

set_option autoImplicit false

namespace EntityQuery

/-- Why a query failed. -/
inductive QueryError
  | invalidPredicateComposition (reason : String)
  | invalidArgument (operator : Operator) (reason : String)
  | invalidFieldPath (path : String)
  | unsupportedOperator (operator : Operator)
  | invalidExpression (reason : String)
  | unsupportedValue (reason : String)
  | http (status : Nat) (body : String)
  | connection (reason : String)
  | json (fault : JsonFault)
  | invalidNextLink (link : String) (fault : UrlFault)
  | transportUnavailable
deriving DecidableEq

namespace QueryError

/-- The wording of an error. -/
def message : QueryError → String
  | invalidPredicateComposition reason => "invalid predicate composition: " ++ reason
  | invalidArgument operator reason =>
    "invalid argument for '" ++ operator.name ++ "': " ++ reason
  | invalidFieldPath path => "invalid field path: '" ++ path ++ "'"
  | unsupportedOperator operator => "operator '" ++ operator.name ++ "' is not supported"
  | invalidExpression reason => "invalid expression: " ++ reason
  | unsupportedValue reason => "unsupported value kind: " ++ reason
  | http status body => "HTTP " ++ toString status ++ ": " ++ body
  | connection reason => "transport error: " ++ reason
  | json fault => "JSON error: " ++ fault.message
  | invalidNextLink link fault => "invalid next link '" ++ link ++ "': " ++ fault.message
  | transportUnavailable => "no transport configured for this provider"

/-- The status a server answered with, if that is what the error is about. -/
def status? : QueryError → Option Nat
  | http status _ => some status
  | _ => none

/-- A predicate must not be linked to a chain. -/
def linkedPredicate : QueryError :=
  .invalidPredicateComposition
    "filter expressions cannot have a value for 'previous', only operands"

end QueryError

/-- A path has to name something. -/
def Field.validate (f : Field) : Except QueryError Unit :=
  if f.isValid then .ok () else .error (.invalidFieldPath f.text)

/-- A path from explicit segments, which have to be valid at once. -/
def Field.ofSegments (segments : List String) : Except QueryError Field :=
  (Field.validate ⟨segments⟩).map fun _ => ⟨segments⟩

end EntityQuery
